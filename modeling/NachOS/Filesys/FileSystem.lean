import NachOS.Filesys.Directory
import NachOS.Lib.Machine

/-!
# The disk file system (filesys/filesys.cc:81-325)

`FileSystem(TRUE)` formats the disk, `Create`, `Open` and `Remove` work on the
directory and the free map, both of which are files whose headers are at fixed
sectors and stay open. `Create` flushes header, directory and free map only when
everything worked; a failing `Create` leaves the disk alone.

An open file caches its header. Each handle records, for the statements about
runs, the sector its header was read from and whether the file has been removed
since. The contents of memory that is allocated and not initialized are arguments
(`heap`, one buffer for each allocation). The file type that `Open(name, type)`
stores in the handle is read by the system calls only and is not kept here.
-/
namespace NachOS.Filesys
open NachOS.Lib NachOS.Library

def FreeMapSector : Nat := 0

def DirectorySector : Nat := 1

def FreeMapFileSize : Nat := NumSectors / 8

def NumDirEntries : Nat := 10

def DirectoryFileSize : Nat := EntrySize * NumDirEntries

def MAX_FILE_OPEN : Nat := 15

/-- A C string literal. -/
def cString (text : List Char) : Buf := fun k => BitVec.ofNat 8 (text.getD k '\x00').toNat

structure Handle where
  file : OpenFile
  sector : Nat
  removed : Bool

structure FileSystem where
  disk : Disk
  freeMapFile : OpenFile
  directoryFile : OpenFile
  /-- The open-file table, with the numbers of the handles in it. -/
  openf : Nat → Option Nat
  /-- The `OpenFile` objects that exist. -/
  handles : Nat → Option Handle
  nextHandle : Nat

namespace FileSystem

/-- `new Directory(NumDirEntries)` and `FetchFrom(directoryFile)`. -/
def fetchDirectory (s : FileSystem) (heap : Buf) : Exec Directory :=
  (Directory.new heap NumDirEntries).fetchFrom s.disk s.directoryFile

/-- `Create` once the directory is known not to hold the name. -/
def createNew (s : FileSystem) (heap : Nat → Buf) (directory : Directory) (name : Buf)
    (initialSize : Int) : Exec (Bool × FileSystem) := do
  let freeMap ← PersistentBitmap.fetchFrom s.disk s.freeMapFile NumSectors
  let (sector, freeMap) ← freeMap.findAndSet
  if sector = -1 then .ok (false, s)
  else
    let (added, directory) := directory.add name sector
    if added = false then .ok (false, s)
    else
      let (allocated, hdr, freeMap) ← FileHeader.allocate ⟨heap 1⟩ freeMap initialSize
      if allocated = false then .ok (false, s)
      else
        let disk ← hdr.writeBack s.disk sector
        let disk ← directory.writeBack disk s.directoryFile (heap 2)
        let disk ← PersistentBitmap.writeBack freeMap disk s.freeMapFile (heap 3)
        .ok (true, { s with disk })

/-- `FileSystem::Create`. -/
def create (s : FileSystem) (heap : Nat → Buf) (name : Buf) (initialSize : Int) :
    Exec (Bool × FileSystem) := do
  let directory ← s.fetchDirectory (heap 0)
  if directory.find name ≠ -1 then .ok (false, s)
  else s.createNew heap directory name initialSize

/-- The handles after the file with its header at `sector` is gone. -/
def markRemoved (handles : Nat → Option Handle) (sector : Nat) : Nat → Option Handle :=
  fun k => (handles k).map fun h => { h with removed := h.removed || h.sector == sector }

/-- `Remove` once the header sector is known. -/
def removeFile (s : FileSystem) (heap : Nat → Buf) (directory : Directory) (name : Buf)
    (sector : Int) : Exec (Bool × FileSystem) := do
  let fileHdr ← FileHeader.fetchFrom s.disk sector
  let freeMap ← PersistentBitmap.fetchFrom s.disk s.freeMapFile NumSectors
  let freeMap ← fileHdr.deallocate freeMap
  let freeMap ← freeMap.clear sector
  let (_, directory) := directory.remove name
  let disk ← PersistentBitmap.writeBack freeMap s.disk s.freeMapFile (heap 1)
  let disk ← directory.writeBack disk s.directoryFile (heap 2)
  .ok (true, { s with disk, handles := markRemoved s.handles sector.toNat })

/-- `FileSystem::Remove`. -/
def remove (s : FileSystem) (heap : Nat → Buf) (name : Buf) : Exec (Bool × FileSystem) := do
  let directory ← s.fetchDirectory (heap 0)
  if directory.find name = -1 then .ok (false, s)
  else s.removeFile heap directory name (directory.find name)

/-- `new OpenFile(sector)`: the number of the new handle. -/
def newHandle (s : FileSystem) (sector : Int) : Exec (Nat × FileSystem) := do
  let file ← OpenFile.new s.disk sector
  .ok (s.nextHandle, { s with
    handles := Function.update s.handles s.nextHandle (some ⟨file, sector.toNat, false⟩)
    nextHandle := s.nextHandle + 1 })

/-- `FileSystem::Open(name)`: the handle, or NULL. -/
def openName (s : FileSystem) (heap : Nat → Buf) (name : Buf) :
    Exec (Option Nat × FileSystem) := do
  let directory ← s.fetchDirectory (heap 0)
  if 0 ≤ directory.find name then
    let (k, s) ← s.newHandle (directory.find name)
    .ok (some k, s)
  else .ok (none, s)

/-- `FileSystem::FindFreeSlot`, `none` for -1. -/
def findFreeSlot (s : FileSystem) : Option Nat :=
  (List.range' 2 (MAX_FILE_OPEN - 2)).find? fun i => (s.openf i).isNone

/-- `FileSystem::Open(name, type)`: with no free slot it accesses `openf[-1]`. -/
def openSlot (s : FileSystem) (heap : Nat → Buf) (name : Buf) :
    Exec (Option Nat × FileSystem) :=
  match s.findFreeSlot with
  | none => .error .outOfBounds
  | some freeSlot => do
    let directory ← s.fetchDirectory (heap 0)
    if 0 ≤ directory.find name then
      let (k, s) ← s.newHandle (directory.find name)
      .ok (some k, { s with openf := Function.update s.openf freeSlot (some k) })
    else .ok (s.openf freeSlot, s)

/-- The part of `FileSystem(TRUE)` that puts an empty file system on the disk. -/
def format (disk : Disk) (heap : Nat → Buf) : Exec FileSystem := do
  let freeMap := Bitmap.new NumSectors
  let directory := Directory.new (heap 0) NumDirEntries
  let freeMap ← freeMap.mark FreeMapSector
  let freeMap ← freeMap.mark DirectorySector
  let (allocated, mapHdr, freeMap) ← FileHeader.allocate ⟨heap 1⟩ freeMap FreeMapFileSize
  check (allocated = true) .assertion
  let (allocated, dirHdr, freeMap) ← FileHeader.allocate ⟨heap 2⟩ freeMap DirectoryFileSize
  check (allocated = true) .assertion
  let disk ← mapHdr.writeBack disk FreeMapSector
  let disk ← dirHdr.writeBack disk DirectorySector
  let freeMapFile ← OpenFile.new disk FreeMapSector
  let directoryFile ← OpenFile.new disk DirectorySector
  let disk ← PersistentBitmap.writeBack freeMap disk freeMapFile (heap 3)
  let disk ← directory.writeBack disk directoryFile (heap 4)
  .ok { disk, freeMapFile, directoryFile, openf := fun _ => none, handles := fun _ => none,
        nextHandle := 0 }

/-- `FileSystem(TRUE)`: the new file system, then the two opens and creates of
the console files. -/
def new (disk : Disk) (heap : Nat → Nat → Buf) : Exec FileSystem := do
  let s ← format disk (heap 0)
  let (input, s) ← s.openSlot (heap 1) (cString ['s', 't', 'd', 'i', 'n'])
  let s := { s with openf := Function.update s.openf 0 input }
  let (output, s) ← s.openSlot (heap 2) (cString ['s', 't', 'd', 'o', 'u', 't'])
  let s := { s with openf := Function.update s.openf 1 output }
  let (_, s) ← s.create (heap 3) (cString ['s', 't', 'd', 'i', 'n']) 0
  let (_, s) ← s.create (heap 4) (cString ['s', 't', 'd', 'o', 'u', 't']) 0
  .ok s

end FileSystem

inductive FsEvent where
  | create (heap : Nat → Buf) (name : Buf) (initialSize : CInt)
  | remove (heap : Nat → Buf) (name : Buf)
  | openName (heap : Nat → Buf) (name : Buf)
  | openSlot (heap : Nat → Buf) (name : Buf)
  /-- `WriteAt` on a handle. -/
  | writeAt (handle : Nat) (heap data : Buf) (numBytes position : CInt)
  /-- `Write` on a handle. -/
  | write (handle : Nat) (heap data : Buf) (numBytes : CInt)
  /-- `delete` of a handle. -/
  | close (handle : Nat)

namespace FileSystem

def writeAtHandle (s : FileSystem) (k : Nat) (heap data : Buf) (numBytes position : Int) :
    Option FileSystem :=
  match s.handles k with
  | none => none
  | some h =>
    match OpenFile.writeAt s.disk h.file.hdr heap data numBytes position with
    | .ok (_, disk) => some { s with disk }
    | .error _ => none

def writeHandle (s : FileSystem) (k : Nat) (heap data : Buf) (numBytes : Int) :
    Option FileSystem :=
  match s.handles k with
  | none => none
  | some h =>
    match h.file.write s.disk heap data numBytes with
    | .ok (_, disk, file) =>
      some { s with disk, handles := Function.update s.handles k (some { h with file }) }
    | .error _ => none

def next : FsEvent → FileSystem → Option FileSystem
  | .create heap name initialSize, s => (s.create heap name initialSize.toInt).toOption.map Prod.snd
  | .remove heap name, s => (s.remove heap name).toOption.map Prod.snd
  | .openName heap name, s => (s.openName heap name).toOption.map Prod.snd
  | .openSlot heap name, s => (s.openSlot heap name).toOption.map Prod.snd
  | .writeAt k heap data numBytes position, s =>
    s.writeAtHandle k heap data numBytes.toInt position.toInt
  | .write k heap data numBytes, s => s.writeHandle k heap data numBytes.toInt
  | .close k, s =>
    if (s.handles k).isSome then some { s with handles := Function.update s.handles k none }
    else none

end FileSystem

/-- All runs of the file system on a disk formatted by `FileSystem(TRUE)`. A call
that faults has no successor. -/
def fsMachine : Machine FileSystem FsEvent where
  init s := ∃ disk heap, FileSystem.new disk heap = .ok s
  next := FileSystem.next

end NachOS.Filesys
