import NachOS.Filesys.Create

/-!
# Copying a UNIX file to the disk and printing it (threads/main.cc:82-150)

`Copy` creates a Nachos file of the length of the UNIX file, opens it and writes
what each `ReadPartial` delivered, at most `TransferSize` bytes at a time. `Print`
opens a file and reads `TransferSize` bytes at a time until there are no more.

The implicit position of the open file joins the pieces: before each `Write` it is
the number of bytes written so far, before each `Read` the number of bytes printed.

* `copy_print`: what was copied is printed as it was, however the host splits the
  reads, and every other file is still printed as before.
-/
namespace NachOS.Filesys
open NachOS.Lib NachOS.Library

def TransferSize : Nat := 128

/-- A UNIX file as the host delivers it: the bytes of each `ReadPartial` up to the
one that returns 0. -/
structure UnixFile where
  reads : List (List Byte)
  partly : ∀ read ∈ reads, 0 < read.length ∧ read.length ≤ TransferSize

namespace UnixFile

def bytes (file : UnixFile) : List Byte := file.reads.flatten

/-- `Tell` at the end of the file. -/
def fileLength (file : UnixFile) : Int := file.bytes.length

end UnixFile

/-- How `Copy` returns. -/
inductive Copied where
  /-- After "Copy: couldn't open input file". -/
  | noInput
  /-- After "Copy: couldn't create output file". -/
  | notCreated
  | done
  deriving DecidableEq

/-- How `Print` returns. -/
inductive Printed where
  /-- After "Print: unable to open file". -/
  | notFound
  | output (bytes : List Byte)
  deriving DecidableEq

/-- The buffer after `ReadPartial` delivered some bytes to it. -/
def readPartial (buffer : Buf) (read : List Byte) : Buf :=
  blit buffer 0 (fun k => read.getD k 0) read.length

/-- The loop of `Copy`, with a fresh buffer for each `WriteAt`. -/
def copyLoop (heap : Nat → Buf) : Disk → OpenFile → Buf → List (List Byte) →
    Exec (Disk × OpenFile)
  | disk, openFile, _, [] => .ok (disk, openFile)
  | disk, openFile, buffer, read :: reads => do
    let buffer := readPartial buffer read
    let (_, disk, openFile) ← openFile.write disk (heap reads.length) buffer read.length
    copyLoop heap disk openFile buffer reads

/-- The loop of `Print`, `none` if it has not ended after `fuel` reads. -/
def printLoop (disk : Disk) : Nat → OpenFile → Exec (Option (List Byte))
  | 0, _ => .ok none
  | fuel + 1, openFile => do
    let (amountRead, buffer, openFile) ← openFile.read disk TransferSize
    if 0 < amountRead then
      let rest ← printLoop disk fuel openFile
      .ok (rest.map (bytesOf buffer amountRead.toNat ++ ·))
    else .ok (some [])

namespace FileSystem

/-- The object behind the pointer that `Open` returned. -/
def object (s : FileSystem) (k : Nat) : Exec OpenFile :=
  match s.handles k with
  | some h => .ok h.file
  | none => .error .outOfBounds

/-- `delete openFile`. -/
def delete (s : FileSystem) (k : Nat) : FileSystem :=
  { s with handles := Function.update s.handles k none }

/-- `Copy`: `source` is the file that `OpenForReadWrite` opened, `heap` the contents
of fresh memory. -/
def copy (s : FileSystem) (heap : Nat → Nat → Buf) (source : Option UnixFile) (target : Buf) :
    Exec (Copied × FileSystem) :=
  match source with
  | none => .ok (.noInput, s)
  | some file => do
    let (created, s) ← s.create (heap 0) target file.fileLength
    if created = false then .ok (.notCreated, s)
    else
      let (openFile, s) ← s.openName (heap 1) target
      match openFile with
      | none => .error .assertion
      | some k => do
        let openFile ← s.object k
        let (disk, _) ← copyLoop (heap 2) s.disk openFile (heap 3 0) file.reads
        .ok (.done, { s with disk }.delete k)

/-- `Print`, with at most `fuel` reads. -/
def print (s : FileSystem) (fuel : Nat) (heap : Nat → Buf) (name : Buf) :
    Exec (Option Printed × FileSystem) := do
  let (openFile, s) ← s.openName heap name
  match openFile with
  | none => .ok (some .notFound, s)
  | some k => do
    let openFile ← s.object k
    let bytes ← printLoop s.disk fuel openFile
    .ok (bytes.map .output, s.delete k)

end FileSystem

section Loops

variable {disk : Disk} {f : OpenFile}

theorem bytesOf_readPartial (buffer : Buf) (read : List Byte) :
    bytesOf (readPartial buffer read) read.length = read := by
  apply List.ext_getElem?
  intro k
  by_cases hk : k < read.length
  · rw [bytesOf_getElem? hk]
    unfold readPartial
    rw [blit_inside (Nat.zero_le k) (by omega), Nat.sub_zero, List.getD_eq_getElem?_getD,
      List.getElem?_eq_getElem hk]
    rfl
  · rw [bytesOf_none (by omega), List.getElem?_eq_none (by omega)]

/-- A `Write` at the end of what is written already. -/
theorem write_appends (v : f.hdr.Valid) {written rest : List Byte}
    (contents : OpenFile.contents f.hdr disk = written ++ rest)
    (position : f.seekPosition = written.length) {read : List Byte}
    (fits : read.length ≤ rest.length) (heap : Buf) {data : Buf}
    (delivered : bytesOf data read.length = read) :
    ∃ disk', f.write disk heap data read.length =
        .ok (read.length, disk', { f with seekPosition := (written ++ read).length }) ∧
      OpenFile.contents f.hdr disk' = written ++ read ++ rest.drop read.length ∧
      ∀ x, x ∉ f.hdr.sectors → disk' x = disk x := by
  have total := congrArg List.length contents
  rw [OpenFile.contents_length, List.length_append] at total
  have bound := v.length_le
  have small : f.seekPosition + read.length ≤ 2147483647 := by
    unfold MaxFileSize NumDirect SectorSize at bound
    omega
  obtain ⟨disk', run, replaced, frame⟩ :=
    OpenFile.writeAt_flat disk v (by omega) small heap data
  have count : (f.flat disk).count read.length f.seekPosition = read.length := by
    rw [OpenFile.count_flat f (by omega)]
    omega
  rw [count] at run replaced
  have next : int32 (f.seekPosition + read.length) = (written ++ read).length := by
    rw [int32_of_range (by omega) small, position, List.length_append, Nat.cast_add]
  refine ⟨disk', ?_, ?_, frame⟩
  · simp only [OpenFile.write, run, Exec.ok_bind, next]
  · rw [replaced, delivered]
    unfold FlatFile.replace OpenFile.flat
    simp only [contents]
    rw [position, Int.toNat_natCast, List.take_left, List.drop_append]
    simp

/-- The loop of `Copy`, by induction over the reads: what is written is what they
delivered so far. -/
theorem copyLoop_spec (heap : Nat → Buf) {reads : List (List Byte)} (v : f.hdr.Valid)
    {written rest : List Byte} (contents : OpenFile.contents f.hdr disk = written ++ rest)
    (position : f.seekPosition = written.length) (length : reads.flatten.length = rest.length)
    (buffer : Buf) :
    ∃ disk' f', copyLoop heap disk f buffer reads = .ok (disk', f') ∧
      OpenFile.contents f.hdr disk' = written ++ reads.flatten ∧
      ∀ x, x ∉ f.hdr.sectors → disk' x = disk x := by
  induction reads generalizing disk f written rest buffer with
  | nil =>
    have done : rest = [] := List.length_eq_zero_iff.mp length.symm
    refine ⟨disk, f, rfl, ?_, fun _ _ => rfl⟩
    rw [contents, done]
    rfl
  | cons read reads ih =>
    rw [List.flatten_cons, List.length_append] at length
    obtain ⟨disk₁, run, contents₁, frame₁⟩ := write_appends v contents position (by omega)
      (heap reads.length) (bytesOf_readPartial buffer read)
    have length₁ : reads.flatten.length = (rest.drop read.length).length := by
      rw [List.length_drop]
      omega
    obtain ⟨disk₂, f₂, run₂, contents₂, frame₂⟩ :=
      ih (f := { f with seekPosition := (written ++ read).length }) v contents₁ rfl length₁
        (readPartial buffer read)
    refine ⟨disk₂, f₂, ?_, ?_, fun x hx => ?_⟩
    · simp only [copyLoop, run, Exec.ok_bind, run₂]
    · rw [contents₂, List.flatten_cons, List.append_assoc]
    · rw [frame₂ x hx, frame₁ x hx]

/-- A `Read` of `Print` gives the next bytes of the file. -/
theorem read_takes (v : f.hdr.Valid) {position n : Nat} (positioned : f.seekPosition = position)
    (inside : position ≤ (OpenFile.contents f.hdr disk).length)
    (amount : n = min TransferSize ((OpenFile.contents f.hdr disk).length - position)) :
    ∃ data, f.read disk TransferSize =
        .ok ((n : Int), data, { f with seekPosition := (position + n : Nat) }) ∧
      bytesOf data n = ((OpenFile.contents f.hdr disk).drop position).take n := by
  have bound := v.length_le
  have length := OpenFile.contents_length f.hdr disk
  have small : f.seekPosition + (TransferSize : Nat) ≤ 2147483647 := by
    unfold MaxFileSize NumDirect SectorSize at bound
    unfold TransferSize
    omega
  obtain ⟨data, run, bytes⟩ := OpenFile.readAt_flat disk v (by omega) small
  have count : (f.flat disk).count (TransferSize : Nat) f.seekPosition = n := by
    unfold FlatFile.count OpenFile.flat
    simp only
    omega
  rw [count] at run bytes
  have next : int32 (f.seekPosition + n) = (position + n : Nat) := by
    rw [int32_of_range (by omega) (by omega), positioned, Nat.cast_add]
  refine ⟨data, ?_, ?_⟩
  · simp only [OpenFile.read, run, Exec.ok_bind, next]
  · rw [bytes, positioned]
    rfl

/-- The loop of `Print`, by induction over the reads that are allowed: it ends as soon
as there are more of them than bytes left. -/
theorem printLoop_spec {fuel : Nat} (v : f.hdr.Valid) {position : Nat}
    (positioned : f.seekPosition = position)
    (inside : position ≤ (OpenFile.contents f.hdr disk).length)
    (enough : (OpenFile.contents f.hdr disk).length - position < fuel) :
    printLoop disk fuel f = .ok (some ((OpenFile.contents f.hdr disk).drop position)) := by
  induction fuel generalizing f position with
  | zero => omega
  | succ fuel ih =>
    obtain ⟨data, run, bytes⟩ := read_takes v positioned inside rfl
    generalize amount :
      min TransferSize ((OpenFile.contents f.hdr disk).length - position) = n at run bytes
    rw [printLoop, run, Exec.ok_bind]
    by_cases more : 0 < n
    · have rest := ih (f := { f with seekPosition := (position + n : Nat) }) v rfl
        (by simp only; omega) (by simp only; omega)
      have positive : (0 : Int) < n := by omega
      simp only [if_pos positive, rest, Exec.ok_bind, Option.map_some, Int.toNat_natCast, bytes]
      rw [← List.drop_drop, List.take_append_drop]
    · have positive : ¬ (0 : Int) < n := by omega
      simp only [if_neg positive]
      have done : (OpenFile.contents f.hdr disk).length ≤ position := by
        unfold TransferSize at amount
        omega
      rw [List.drop_eq_nil_of_le done]

end Loops

namespace FileSystem

variable {low : Int} {s s' : FileSystem}

/-- The bytes of the file in entry `i` of the directory. -/
def bytesAt (s : FileSystem) (i : Nat) : List Byte := OpenFile.contents (s.fileHeader i) s.disk

theorem openName_none (inv : FsInvariant low s) (heap : Nat → Buf) {name : Buf}
    (absent : s.directory.findIndex name = none) : s.openName heap name = .ok (none, s) := by
  obtain ⟨d, fetched, entries, table⟩ := inv.system.fetchDirectory (heap 0)
  have index := Directory.findIndex_congr (d := s.directory) entries table name
  have missing : d.find name = -1 := by
    unfold Directory.find
    rw [index, absent]
  unfold openName
  rw [fetched, Exec.ok_bind, missing]
  rfl

theorem openName_some (inv : FsInvariant low s) (heap : Nat → Buf) {name : Buf} {i : Nat}
    (found : s.directory.findIndex name = some i) :
    s.openName heap name = .ok (some s.nextHandle, s.withObject i) := by
  obtain ⟨d, fetched, entries, table⟩ := inv.system.fetchDirectory (heap 0)
  have index := Directory.findIndex_congr (d := s.directory) entries table name
  obtain ⟨hi, used⟩ := Directory.findIndex_some found
  have sector : d.find name = s.directory.sector i := by
    unfold Directory.find
    rw [index, found]
    exact Directory.sector_congr (d := s.directory) table hi
  have nonneg := (inv.files i hi used).1.1
  unfold openName
  rw [fetched, Exec.ok_bind, sector, if_pos nonneg, newHandle_eq inv hi used]
  rfl

theorem delete_handles_self (s : FileSystem) (k : Nat) : (s.delete k).handles k = none :=
  Function.update_self _ _ _

theorem delete_handles_other {j k : Nat} (other : j ≠ k) : (s.delete k).handles j = s.handles j :=
  Function.update_of_ne other _ _

theorem object_withObject (s : FileSystem) (i : Nat) :
    (s.withObject i).object s.nextHandle = .ok ⟨s.fileHeader i, 0⟩ := by
  unfold object withObject
  simp only [Function.update_self]

/-- `Print` gives the bytes of the file that the lookup finds. -/
theorem print_some (inv : FsInvariant low s) (heap : Nat → Buf) {name : Buf} {i fuel : Nat}
    (found : s.directory.findIndex name = some i) (enough : (s.bytesAt i).length < fuel) :
    s.print fuel heap name =
      .ok (some (.output (s.bytesAt i)), (s.withObject i).delete s.nextHandle) := by
  obtain ⟨hi, used⟩ := Directory.findIndex_some found
  have valid := (inv.files i hi used).2.1
  have printed : printLoop s.disk fuel ⟨s.fileHeader i, 0⟩ = .ok (some ((s.bytesAt i).drop 0)) :=
    printLoop_spec valid rfl (Nat.zero_le _) enough
  rw [List.drop_zero] at printed
  unfold print
  rw [openName_some inv heap found, Exec.ok_bind]
  simp only [object_withObject, Exec.ok_bind]
  change (do
    let bytes ← printLoop s.disk fuel ⟨s.fileHeader i, 0⟩
    .ok (bytes.map Printed.output, (s.withObject i).delete s.nextHandle)) = _
  rw [printed]
  rfl

/-- `Print` of this name ends after enough reads and has printed these bytes. -/
def Prints (s : FileSystem) (name : Buf) (bytes : List Byte) : Prop :=
  ∀ heap, ∃ enough, ∀ fuel ≥ enough, ∃ s', s.print fuel heap name = .ok (some (.output bytes), s')

theorem prints_iff (inv : FsInvariant low s) {name : Buf} {bytes : List Byte} :
    s.Prints name bytes ↔ ∃ i, s.directory.findIndex name = some i ∧ s.bytesAt i = bytes := by
  constructor
  · intro prints
    obtain ⟨enough, output⟩ := prints fun _ _ => 0
    cases index : s.directory.findIndex name with
    | none =>
      obtain ⟨s', run⟩ := output enough (Nat.le_refl _)
      unfold print at run
      rw [openName_none inv _ index] at run
      cases run
    | some i =>
      obtain ⟨s', run⟩ := output (max enough ((s.bytesAt i).length + 1)) (Nat.le_max_left _ _)
      rw [print_some inv _ index (Nat.lt_of_succ_le (Nat.le_max_right _ _))] at run
      cases run
      exact ⟨i, rfl, rfl⟩
  · rintro ⟨i, index, rfl⟩ heap
    refine ⟨(s.bytesAt i).length + 1, fun fuel enough => ?_⟩
    exact ⟨_, print_some inv heap index enough⟩

/-- Nothing but the data of the file in entry `i` is different. -/
structure Rewritten (s : FileSystem) (i : Nat) (s' : FileSystem) : Prop where
  table : ∀ a < EntrySize * NumDirEntries, s'.directory.table a = s.directory.table a
  headers : ∀ j < NumDirEntries, s.directory.inUse j = true → s'.fileHeader j = s.fileHeader j
  others : ∀ j < NumDirEntries, s.directory.inUse j = true → j ≠ i → s'.bytesAt j = s.bytesAt j

/-- Two entries have their headers at different sectors. -/
theorem fileSector_injective (inv : FsInvariant low s) {i j : Nat} (hi : i < NumDirEntries)
    (hj : j < NumDirEntries) (usedi : s.directory.inUse i = true)
    (usedj : s.directory.inUse j = true) (same : s.fileSector j = s.fileSector i) : j = i := by
  have first := FsInvariant.fileSector_mem hj usedj
  rw [same] at first
  have owner := inv.exact.disjoint _ _ _ first (FsInvariant.fileSector_mem hi usedi)
  cases owner
  rfl

/-- The data sectors of entry `i` are written through an object for it, which is then
deleted. -/
theorem rewritten (inv : FsInvariant low s) {i : Nat} (hi : i < NumDirEntries)
    (used : s.directory.inUse i = true) {disk : Disk}
    (frame : ∀ x, x ∉ (s.fileHeader i).sectors → disk x = s.disk x) :
    FsInvariant low ({ s.withObject i with disk }.delete s.nextHandle) ∧
      s.Rewritten i ({ s.withObject i with disk }.delete s.nextHandle) := by
  generalize after : { s.withObject i with disk }.delete s.nextHandle = s'
  have inv₁ := inv.withObject hi used
  have open_ : (s.withObject i).handles s.nextHandle =
      some ⟨⟨s.fileHeader i, 0⟩, s.fileSector i, false⟩ := Function.update_self _ _ _
  have sound := inv₁.handles _ _ open_
  have writable : (s.withObject i).Writable ⟨⟨s.fileHeader i, 0⟩, s.fileSector i, false⟩ := .inl rfl
  have written : (s.withObject i).Written ⟨⟨s.fileHeader i, 0⟩, s.fileSector i, false⟩ s' := by
    rw [← after]
    refine ⟨⟨rfl, rfl⟩, frame, fun k h same => ?_⟩
    by_cases deleted : k = s.nextHandle
    · rw [deleted, delete_handles_self] at same
      cases same
    · rw [delete_handles_other deleted] at same
      exact .inl same
  have kept := fun j (hj : j < NumDirEntries) => written.keeps inv₁ sound writable hj
  refine ⟨written.invariant inv₁ sound writable, ?_, ?_, ?_⟩
  · intro a ha
    apply table_of_sectors inv₁.system written.files _ ha
    exact fun x hx => written.system inv₁ sound writable (FsInvariant.dirSectors_mem hx)
  · exact fun j hj usedj => (kept j hj).fileHeader usedj
  · intro j hj usedj other
    have header : s'.fileHeader j = s.fileHeader j := (kept j hj).fileHeader usedj
    have valid := (inv.files j hj usedj).2.1
    unfold bytesAt
    rw [header]
    apply OpenFile.contents_congr valid
    intro x hx
    apply written.data inv₁ sound writable hj usedj _ hx
    intro ⟨_, same⟩
    exact other (fileSector_injective inv hi hj used usedj same)

namespace Rewritten

variable {i : Nat}

theorem findIndex (r : s.Rewritten i s') (name : Buf) :
    s'.directory.findIndex name = s.directory.findIndex name := by
  have size : s'.directory.tableSize = s.directory.tableSize := rfl
  exact Directory.findIndex_congr size r.table name

end Rewritten

/-- `Copy` when the file is created: the bytes are in the new file. -/
theorem copy_created (heap : Nat → Nat → Buf) (file : UnixFile)
    {target : Buf} {i n : Nat} {hdr : FileHeader}
    (run : s.create (heap 0) target file.fileLength = .ok (true, s')) (c : s.Created i n hdr s')
    (length : hdr.numBytes = file.fileLength) (inv' : FsInvariant low s')
    (found : s'.directory.findIndex target = some i) :
    ∃ s₂, s.copy heap (some file) target = .ok (.done, s₂) ∧ FsInvariant low s₂ ∧
      s'.Rewritten i s₂ ∧ s₂.bytesAt i = file.bytes := by
  obtain ⟨hi, used⟩ := Directory.findIndex_some found
  have header : (s'.fileHeader i).numBytes = file.fileLength := by
    unfold fileHeader
    rw [c.fileSector_new, c.stored.numBytes, length]
  have valid := (inv'.files i hi used).2.1
  have size : file.reads.flatten.length = (s'.bytesAt i).length := by
    unfold bytesAt
    rw [OpenFile.contents_length, header]
    rfl
  obtain ⟨disk, f, copied, contents, frame⟩ := copyLoop_spec (heap 2) (f := ⟨s'.fileHeader i, 0⟩)
    valid (List.nil_append (s'.bytesAt i)).symm rfl size (heap 3 0)
  obtain ⟨inv₂, r⟩ := rewritten inv' hi used frame
  refine ⟨_, ?_, inv₂, r, ?_⟩
  · unfold copy
    simp only [run, Exec.ok_bind, Bool.true_eq_false, if_false, openName_some inv' _ found,
      object_withObject]
    change (do
      let (disk, _) ← copyLoop (heap 2) s'.disk ⟨s'.fileHeader i, 0⟩ (heap 3 0) file.reads
      .ok (Copied.done, { s'.withObject i with disk }.delete s'.nextHandle)) = _
    rw [copied]
    rfl
  · unfold bytesAt
    rw [r.headers i hi used]
    exact contents

/-- `Copy` when nothing is created. -/
theorem copy_refused (heap : Nat → Nat → Buf) {file : UnixFile} {target : Buf}
    (run : s.create (heap 0) target file.fileLength = .ok (false, s)) :
    s.copy heap (some file) target = .ok (.notCreated, s) := by
  unfold copy
  simp only [run, Exec.ok_bind, if_true]

end FileSystem

/-- A file that `Copy` created is printed as the UNIX file was read, in whatever pieces,
and the other files are printed as before. -/
theorem copy_print {low : Int} {s : FileSystem} (inv : FsInvariant low s)
    (heap : Nat → Nat → Buf) (file : UnixFile) (fits : file.bytes.length ≤ MaxFileSize)
    (target : Buf) :
    ∃ outcome s', s.copy heap (some file) target = .ok (outcome, s') ∧
      (outcome = .notCreated → s' = s) ∧
      (outcome = .done → s'.Prints target file.bytes ∧
        ∀ other bytes, s.Prints other bytes → s'.Prints other bytes) := by
  have inv₀ : FsInvariant (min low 0) s := inv.mono (min_le_left low 0)
  have nonneg : 0 ≤ file.fileLength := Int.natCast_nonneg _
  have small : file.fileLength ≤ MaxFileSize := Int.ofNat_le.mpr fits
  rcases FileSystem.create_spec inv₀ (heap 0) target (by omega) small with
    ⟨room, i, n, hdr, s₁, run, c, length, filled⟩ | ⟨_, run⟩
  · have inv₁ := c.invariant inv₀ (length ▸ Int.le_trans (min_le_right low 0) nonneg)
    have found := filled.findIndex_new c.range rfl c.inUse room.fresh
    obtain ⟨s₂, copied, inv₂, r, bytes⟩ := FileSystem.copy_created heap file run c length inv₁ found
    refine ⟨.done, s₂, copied, ?_, fun _ => ⟨?_, ?_⟩⟩
    · intro refused
      cases refused
    · rw [FileSystem.prints_iff inv₂]
      exact ⟨i, (r.findIndex target).trans found, bytes⟩
    · intro other printed prints
      rw [FileSystem.prints_iff inv₀] at prints
      obtain ⟨j, index, same⟩ := prints
      obtain ⟨hj, used⟩ := Directory.findIndex_some index
      have apart := c.ne_of_used used
      have used₁ : s₁.directory.inUse j = true := by rw [c.inUse j hj, if_neg apart, used]
      have index₁ := filled.findIndex_old rfl c.unused c.inUse room.fresh index
      rw [FileSystem.prints_iff inv₂]
      refine ⟨j, (r.findIndex other).trans index₁, ?_⟩
      rw [← same, r.others j hj used₁ apart]
      exact (c.contents inv₀ hj used).2
  · refine ⟨.notCreated, s, FileSystem.copy_refused heap run, fun _ => rfl, ?_⟩
    intro done
    cases done

/-- Three bytes that the host delivers in two reads. -/
def shortFile : UnixFile := ⟨[[1, 2], [3]], by decide⟩

theorem blankSystem_copies : (blankSystem.bind fun s =>
    (s.copy (fun _ _ => blank) (some shortFile) (cString ['a'])).toOption.map Prod.fst) =
      some .done := by
  decide +kernel

theorem copy_print_short : ∃ s s', blankSystem = some s ∧
    s.copy (fun _ _ => blank) (some shortFile) (cString ['a']) = .ok (.done, s') ∧
    s'.Prints (cString ['a']) [1, 2, 3] ∧
    ∀ other bytes, s.Prints other bytes → s'.Prints other bytes := by
  obtain ⟨s, start, copies⟩ := Option.bind_eq_some_iff.mp blankSystem_copies
  have inv : FsInvariant 0 s := fsInvariant_of_reachable (by decide) (.init (blankSystem_init start))
  obtain ⟨outcome, s', run, _, printed⟩ :=
    copy_print inv (fun _ _ => blank) shortFile (by decide) (cString ['a'])
  rw [run] at copies
  have done : outcome = .done := Option.some_inj.mp copies
  rw [done] at run
  exact ⟨s, s', start, run, printed done⟩

end NachOS.Filesys
