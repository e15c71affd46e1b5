import NachOS.Filesys.CopyPrint
import NachOS.Filesys.DirectoryMap
import NachOS.Lib.Service
import NachOS.Lib.Tabulates
import NachOS.Userprog.ConsoleFiles

/-!
# The disk file system as a store of files

What the file system is for: a finite map from names to arrays of bytes, of which a caller
holds open files, each with a position of its own. Names are told apart by their first
`FileNameMaxLen` characters. There is room for `NumDirEntries` files and for `DataSectors`
sectors; a file takes one for its header and one for each `SectorSize` bytes begun.
-/
namespace NachOS.Filesys
open NachOS.Lib NachOS.Library

/-- The sectors that are left for files when the disk is formatted. -/
def DataSectors : Nat := NumSectors - 5

/-- How many sectors a file takes. -/
def sectorsOf (length : Nat) : Nat := 1 + (length + (SectorSize - 1)) / SectorSize

/-- An open file: the name it has, while it exists, and the position. -/
structure Opened where
  file : Option (List Byte)
  position : Int

structure Store where
  files : Finmap fun _ : List Byte => List Byte
  handles : Nat → Option Opened
  nextHandle : Nat

namespace Store

def empty : Store := ⟨∅, fun _ => none, 0⟩

/-- The sectors that the files take. -/
def used (t : Store) : Nat :=
  ∑ name ∈ t.files.keys, sectorsOf ((t.files.lookup name).getD []).length

/-- A new file of the given length can be made. -/
def HasRoom (t : Store) (name : List Byte) (length : Nat) : Prop :=
  name ∉ t.files ∧ t.files.keys.card < NumDirEntries ∧ t.used + sectorsOf length ≤ DataSectors

def withFile (t : Store) (name bytes : List Byte) : Store :=
  { t with files := t.files.insert name bytes }

/-- The file is gone, and those who had it open have nothing. -/
def without (t : Store) (name : List Byte) : Store :=
  { t with
    files := t.files.erase name
    handles := fun k => (t.handles k).map fun o =>
      if o.file = some name then { o with file := none } else o }

def withOpened (t : Store) (name : List Byte) : Store :=
  { t with
    handles := Function.update t.handles t.nextHandle (some ⟨some name, 0⟩)
    nextHandle := t.nextHandle + 1 }

/-- `Open`: a number for the open file, if there is a file of that name. -/
def openName (t : Store) (name : List Byte) : Option Nat × Store :=
  if name ∈ t.files then (some t.nextHandle, t.withOpened name) else (none, t)

/-- The array that an open file gives access to. -/
def flat (t : Store) (o : Opened) : FlatFile :=
  ⟨(o.file.bind fun name => t.files.lookup name).getD [], o.position⟩

/-- The file and the position after a call on an open file. -/
def withFlat (t : Store) (k : Nat) (name : List Byte) (f : FlatFile) : Store :=
  { t with
    files := t.files.insert name f.bytes
    handles := Function.update t.handles k (some ⟨some name, f.position⟩) }

instance (t : Store) (name : List Byte) (length : Nat) : Decidable (t.HasRoom name length) :=
  inferInstanceAs (Decidable (_ ∧ _ ∧ _))

/-- An empty file, unless there is one of that name or no room for it. -/
def withEmpty (t : Store) (name : List Byte) : Store :=
  if t.HasRoom name 0 then t.withFile name [] else t

/-- The console files: opened if they are there, made if they are not. -/
def withConsole (t : Store) : Store :=
  let input := Directory.key (cString ['s', 't', 'd', 'i', 'n'])
  let output := Directory.key (cString ['s', 't', 'd', 'o', 'u', 't'])
  (((t.openName input).2.openName output).2.withEmpty input).withEmpty output

/-- The files are still there, and nothing is open but the console. -/
def restarted (t : Store) : Store :=
  { t with handles := fun _ => none, nextHandle := 0 }.withConsole

end Store

/-- A call on the file system. -/
inductive FsCall where
  | create (name : Buf) (initialSize : CInt)
  | remove (name : Buf)
  | openName (name : Buf)
  /-- A call of class `OpenFile`. -/
  | access (handle : Nat) (op : FileOp)
  | delete (handle : Nat)
  /-- The machine stops between two calls, and `FileSystem(FALSE)` runs on its disk. -/
  | restart

inductive FsAnswer where
  | done (value : Bool)
  | handle (value : Option Nat)
  | result (value : Result)
  | none
  deriving DecidableEq

namespace FileSystem

/-- A call on an open file. -/
def access (s : FileSystem) (heap : Buf) (k : Nat) (op : FileOp) : Exec (Result × FileSystem) :=
  match s.handles k with
  | none => .error .outOfBounds
  | some h => do
    let (result, file, disk) ← h.file.step s.disk heap op
    .ok (result, { s with disk, handles := Function.update s.handles k (some { h with file }) })

/-- One call, with the contents of the memory that it allocates. -/
def perform (heap : Nat → Nat → Buf) (s : FileSystem) : FsCall → Exec (FsAnswer × FileSystem)
  | .create name initialSize => do
    let (created, s) ← s.create (heap 0) name initialSize.toInt
    .ok (.done created, s)
  | .remove name => do
    let (removed, s) ← s.remove (heap 0) name
    .ok (.done removed, s)
  | .openName name => do
    let (k, s) ← s.openName (heap 0) name
    .ok (.handle k, s)
  | .access k op => do
    let (result, s) ← s.access (heap 0 0) k op
    .ok (.result result, s)
  | .delete k => do
    let _ ← s.object k
    .ok (.none, s.delete k)
  | .restart => do
    let s ← TypedSystem.construct false s.disk heap
    .ok (.none, s.fs)

end FileSystem

namespace Store
open Directory

/-- What the calls are to the store. The bytes of a new file are whatever its sectors hold. -/
inductive Step : FsCall → FsAnswer → Store → Store → Prop
  | created {t : Store} {name : Buf} {initialSize : CInt} {bytes : List Byte}
      (room : t.HasRoom (key name) initialSize.toInt.toNat)
      (length : bytes.length = initialSize.toInt.toNat) :
      Step (.create name initialSize) (.done true) t (t.withFile (key name) bytes)
  | refused {t : Store} {name : Buf} {initialSize : CInt}
      (full : ¬t.HasRoom (key name) initialSize.toInt.toNat) :
      Step (.create name initialSize) (.done false) t t
  | removed {t : Store} {name : Buf} (there : key name ∈ t.files) :
      Step (.remove name) (.done true) t (t.without (key name))
  | missing {t : Store} {name : Buf} (absent : key name ∉ t.files) :
      Step (.remove name) (.done false) t t
  | opened (t : Store) (name : Buf) :
      Step (.openName name) (.handle (t.openName (key name)).1) t (t.openName (key name)).2
  | accessed {t : Store} {k : Nat} {o : Opened} {name : List Byte} (op : FileOp)
      (here : t.handles k = some o) (exists_ : o.file = some name) :
      Step (.access k op) (.result ((t.flat o).step op).1) t
        (t.withFlat k name ((t.flat o).step op).2)
  | deleted (t : Store) (k : Nat) :
      Step (.delete k) .none t { t with handles := Function.update t.handles k none }
  | restarted (t : Store) : Step .restart .none t t.restarted

/-- What a caller promises: the size is one that a header can hold, an open file is one of a
file that still exists, and requests do not reach past `INT_MAX`. -/
def Legal : FsCall → Store → Prop
  | .create _ initialSize, _ => 0 ≤ initialSize.toInt ∧ initialSize.toInt ≤ MaxFileSize
  | .access k op, t => ∃ o, t.handles k = some o ∧ o.file.isSome = true ∧ (t.flat o).Admissible op
  | .delete k, t => (t.handles k).isSome = true
  | _, _ => True

end Store

/-- The file system as a store; a call comes with the memory that it allocates. -/
def fsService : Service ((Nat → Nat → Buf) × FsCall) FileSystem Store FsAnswer where
  step call s := (s.perform call.1 call.2).toOption
  spec call := Store.Step call.2
  legal call := Store.Legal call.2

namespace FileSystem

/-- An open file as the caller knows it. -/
structure Opens (s : FileSystem) (h : Handle) (o : Opened) : Prop where
  position : o.position = h.file.seekPosition
  named : ∀ name, o.file = some name → h.removed = false ∧ ∃ i < NumDirEntries,
    s.directory.inUse i = true ∧ Directory.key (s.directory.name i) = name ∧
      s.fileSector i = h.sector

/-- The file system holds what is in the store. -/
structure Stores (s : FileSystem) (t : Store) : Prop where
  inv : FsInvariant 0 s
  files : Tabulates (fun i : Fin NumDirEntries => s.directory.inUse i = true)
    (fun i => Directory.key (s.directory.name i)) (fun i => s.bytesAt i) t.files
  handles : ∀ k, Option.Rel s.Opens (s.handles k) (t.handles k)
  nextHandle : t.nextHandle = s.nextHandle

end FileSystem

end NachOS.Filesys
