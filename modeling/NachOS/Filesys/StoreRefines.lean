import NachOS.Filesys.Store
import Mathlib.Algebra.BigOperators.Fin

/-!
# The disk file system refines the store

One lemma for each call says that it answers as the store does and leaves a disk that holds
what the store holds. Space is counted on both sides: the sectors that the free map does not
mark are those that the files do not take.
-/
namespace NachOS.Filesys
open NachOS.Lib NachOS.Library

theorem rel_imp {α β : Type} {R S : α → β → Prop} {a : Option α} {b : Option β}
    (rel : Option.Rel R a b) (imp : ∀ x y, R x y → S x y) : Option.Rel S a b := by
  cases rel with
  | none => exact .none
  | some here => exact .some (imp _ _ here)

/-- A sector is free or used. -/
theorem Disk.Consistent.numClear_add {disk : Disk} (consistent : disk.Consistent) :
    disk.freeMap.numClear + disk.usedSectors.length = NumSectors := by
  have perm : disk.usedSectors.Perm ((List.range NumSectors).filter disk.freeMap.bit) := by
    rw [List.perm_ext_iff_of_nodup consistent.distinct (List.nodup_range.filter _)]
    intro x
    rw [← consistent.marked, List.mem_filter, List.mem_range]
  have split := List.length_eq_countP_add_countP disk.freeMap.bit (l := List.range NumSectors)
  have clear : disk.freeMap.numClear =
      (List.range NumSectors).countP fun x => decide ¬disk.freeMap.bit x = true := by
    apply List.countP_congr
    simp
  rw [perm.length_eq, ← List.countP_eq_length_filter, clear, Nat.add_comm, ← split,
    List.length_range]

/-- How many sectors a valid header has. -/
theorem FileHeader.Valid.length_sectors {h : FileHeader} (valid : h.Valid)
    (nonneg : 0 ≤ h.numBytes) :
    1 + h.sectors.length = sectorsOf h.numBytes.toNat := by
  have count := valid.count
  rw [divRoundUp_nonneg nonneg] at count
  unfold FileHeader.sectors sectorsOf
  rw [List.length_map, List.length_range, count]
  unfold SectorSize
  omega

theorem FileHeader.Same.contents {h h' : FileHeader} (same : h.Same h') (valid : h.Valid)
    {disk : Disk} : OpenFile.contents h disk = OpenFile.contents h' disk := by
  unfold OpenFile.contents bytesOf
  rw [← same.numBytes]
  apply List.map_congr_left
  intro a ha
  have := List.mem_range.mp ha
  exact same.byteAt valid (by omega)

/-- The sectors of an entry are counted by the length of its file. -/
theorem FsInvariant.entry_length {s : FileSystem} (inv : FsInvariant 0 s)
    (i : Fin NumDirEntries) : (s.disk.entrySectors i).length =
      if s.directory.inUse i = true then sectorsOf (s.bytesAt i).length else 0 := by
  rw [inv.disk_entrySectors i]
  by_cases used : s.directory.inUse i = true
  · obtain ⟨_, valid, nonneg⟩ := inv.files i i.isLt used
    rw [if_pos used, FsInvariant.owned_entry i used, List.length_cons, Nat.add_comm,
      valid.length_sectors nonneg]
    unfold FileSystem.bytesAt
    rw [OpenFile.contents_length]
  · rw [if_neg used]
    exact congrArg List.length (if_neg used)

namespace FileSystem

variable {s s' : FileSystem} {t : Store}

namespace Stores

theorem mem_iff (stores : s.Stores t) {name : List Byte} : name ∈ t.files ↔
    ∃ i < NumDirEntries,
      s.directory.inUse i = true ∧ Directory.key (s.directory.name i) = name := by
  rw [stores.files.mem_iff]
  constructor
  · intro ⟨i, used, same⟩
    exact ⟨i, i.isLt, used, same⟩
  · intro ⟨i, hi, used, same⟩
    exact ⟨⟨i, hi⟩, used, same⟩

theorem holds_iff (stores : s.Stores t) {name : Buf} :
    s.directory.Holds name ↔ Directory.key name ∈ t.files := by
  rw [stores.mem_iff]
  unfold Directory.Holds
  simp only [strncmpEqual_iff_chars]
  rfl

theorem hasFree_iff (stores : s.Stores t) :
    s.directory.HasFree ↔ t.files.keys.card < NumDirEntries := by
  rw [stores.files.card_keys]
  constructor
  · intro ⟨i, hi, free⟩
    have missing : ⟨i, hi⟩ ∉ Finset.univ.filter
        fun j : Fin NumDirEntries => s.directory.inUse j = true := by
      simp [free]
    exact Fintype.card_fin NumDirEntries ▸ Finset.card_lt_univ_of_notMem missing
  · intro few
    by_contra full
    have all : (Finset.univ.filter fun j : Fin NumDirEntries => s.directory.inUse j = true) =
        Finset.univ := by
      apply Finset.filter_true_of_mem
      intro j _
      by_contra unused
      exact full ⟨j, j.isLt, Bool.eq_false_iff.mpr unused⟩
    rw [all, Finset.card_univ, Fintype.card_fin] at few
    exact absurd few (Nat.lt_irrefl _)

/-- The sectors that the store has left are those that are free on the disk. -/
theorem numClear_add (stores : s.Stores t) : s.freeMap.numClear + t.used = DataSectors := by
  have inv := stores.inv
  have total := inv.consistent.numClear_add
  have free : s.disk.freeMap.numClear = s.freeMap.numClear :=
    Bitmap.numClear_congr rfl fun x hx => inv.disk_freeMap hx
  have map := inv.system.map.length_sectors (by rw [inv.system.mapLength]; decide)
  have dir := inv.system.dir.length_sectors (by rw [inv.system.dirLength]; decide)
  rw [inv.system.mapLength] at map
  rw [inv.system.dirLength] at dir
  have system : (s.owned .system).length = 5 := by
    unfold owned
    simp only [List.length_cons, List.length_append]
    have one : sectorsOf (FreeMapFileSize : Int).toNat = 2 := by decide
    have two : sectorsOf (DirectoryFileSize : Int).toNat = 3 := by decide
    omega
  have used : t.used = ((List.range NumDirEntries).flatMap s.disk.entrySectors).length := by
    unfold Store.used
    rw [stores.files.sum_keys fun bytes => sectorsOf bytes.length, Finset.sum_filter,
      List.length_flatMap]
    have list : ((List.range NumDirEntries).map fun i => (s.disk.entrySectors i).length).sum =
        ∑ i ∈ Finset.range NumDirEntries, (s.disk.entrySectors i).length := rfl
    rw [list, Finset.sum_range]
    apply Finset.sum_congr rfl
    intro i _
    exact (inv.entry_length i).symm
  unfold Disk.usedSectors at total
  rw [List.length_append, inv.disk_systemSectors, system, ← used, free] at total
  unfold DataSectors
  unfold NumSectors at *
  omega

theorem room_iff (stores : s.Stores t) {name : Buf} {initialSize : Int}
    (nonneg : 0 ≤ initialSize) :
    s.Room name initialSize ↔ t.HasRoom (Directory.key name) initialSize.toNat := by
  have space := stores.numClear_add
  rw [FileSystem.room_iff nonneg, stores.holds_iff, stores.hasFree_iff]
  unfold Store.HasRoom
  apply and_congr_right
  intro _
  apply and_congr_right
  intro _
  unfold sectorsOf SectorSize
  omega

end Stores

/-- `Create` works on the disk alone. -/
theorem create_disk {heap : Nat → Buf} {name : Buf} {initialSize : Int} {created : Bool}
    (run : s.create heap name initialSize = .ok (created, s')) :
    s' = { s with disk := s'.disk } := by
  obtain ⟨directory, _, run⟩ := Exec.bind_eq_ok.mp run
  split at run
  next =>
    cases run
    rfl
  next =>
    obtain ⟨freeMap, _, run⟩ := Exec.bind_eq_ok.mp run
    obtain ⟨⟨sector, freeMap⟩, _, run⟩ := Exec.bind_eq_ok.mp run
    dsimp only at run
    split at run
    next =>
      cases run
      rfl
    next =>
      split at run
      next =>
        cases run
        rfl
      next =>
        obtain ⟨⟨allocated, hdr, freeMap⟩, _, run⟩ := Exec.bind_eq_ok.mp run
        dsimp only at run
        split at run
        next =>
          cases run
          rfl
        next =>
          obtain ⟨disk₁, _, run⟩ := Exec.bind_eq_ok.mp run
          obtain ⟨disk₂, _, run⟩ := Exec.bind_eq_ok.mp run
          obtain ⟨disk₃, _, run⟩ := Exec.bind_eq_ok.mp run
          cases run
          rfl

/-- Entry `i` of the directory keeps its name and its sector. -/
structure KeepsName (s s' : FileSystem) (i : Nat) : Prop where
  entry : s.KeepsEntry s' i
  key : Directory.key (s'.directory.name i) = Directory.key (s.directory.name i)

/-- A write through an open file leaves the directory alone. -/
theorem Written.keepsName {h : Handle} (w : s.Written h s') (inv : FsInvariant 0 s)
    (sound : s.Sound h) (writable : s.Writable h) {j : Nat} (hj : j < NumDirEntries) :
    s.KeepsName s' j := by
  refine ⟨w.keeps inv sound writable hj, chars_congr fun a ha => ?_⟩
  apply Directory.name_congr _ hj ha
  intro x hx
  apply table_of_sectors inv.system w.files _ hx
  exact fun y hy => w.system inv sound writable (FsInvariant.dirSectors_mem hy)

/-- An open file is what it was, while its entry of the directory is. -/
theorem Opens.keep {h : Handle} {o : Opened} (opens : s.Opens h o)
    (kept : h.removed = false → ∀ i < NumDirEntries, s.directory.inUse i = true →
      s.fileSector i = h.sector → s.KeepsName s' i) : s'.Opens h o := by
  constructor
  · exact opens.position
  · intro name file
    obtain ⟨live, i, hi, used, same, sector⟩ := opens.named name file
    have this := kept live i hi used sector
    exact ⟨live, i, hi, this.entry.inUse.trans used, this.key.trans same,
      this.entry.fileSector.trans sector⟩

namespace Stores

/-- All open files are what they were, while the directory is. -/
theorem handles_keep (stores : s.Stores t)
    (kept : ∀ i < NumDirEntries, s.directory.inUse i = true → s.KeepsName s' i) (k : Nat) :
    Option.Rel s'.Opens (s.handles k) (t.handles k) := by
  apply rel_imp (stores.handles k)
  intro h o opens
  exact opens.keep fun _ i hi used _ => kept i hi used

theorem create (stores : s.Stores t) (heap : Nat → Buf) (name : Buf) {initialSize : Int}
    (nonneg : 0 ≤ initialSize) (fits : initialSize ≤ MaxFileSize) :
    (t.HasRoom (Directory.key name) initialSize.toNat ∧ ∃ s' bytes,
      s.create heap name initialSize = .ok (true, s') ∧ bytes.length = initialSize.toNat ∧
      s'.Stores (t.withFile (Directory.key name) bytes)) ∨
    ¬t.HasRoom (Directory.key name) initialSize.toNat ∧
      s.create heap name initialSize = .ok (false, s) := by
  have inv := stores.inv
  rw [← stores.room_iff nonneg]
  rcases create_spec inv heap name (by omega) fits with
    ⟨room, i, n, hdr, s', run, c, length, filled⟩ | ⟨full, run⟩
  · refine .inl ⟨room, s', s'.bytesAt i, run, ?_, ?_⟩
    · unfold bytesAt fileHeader
      rw [OpenFile.contents_length, c.fileSector_new, c.stored.numBytes, length]
    · have kept : ∀ j < NumDirEntries, s.directory.inUse j = true → s.KeepsName s' j := by
        intro j hj used
        have other := c.ne_of_used used
        exact ⟨c.keeps inv hj other, filled.key_other hj other⟩
      constructor
      · exact c.invariant inv (by omega)
      · have new := filled.key_new
        unfold Store.withFile
        simp only [← new]
        apply stores.files.insert ⟨i, c.range⟩
        · rw [new, ← stores.holds_iff]
          exact room.fresh
        · intro j
          rw [c.inUse j j.isLt, Fin.ext_iff]
          split <;> simp_all
        · exact fun j used => (kept j j.isLt used).key
        · rfl
        · intro j used
          exact (c.contents inv j.isLt used).2
      · intro k
        rw [c.handles]
        exact stores.handles_keep kept k
      · rw [create_disk run]
        exact stores.nextHandle
  · exact .inr ⟨full, run⟩

/-- The entry of a file. -/
theorem findIndex_some (stores : s.Stores t) {name : Buf} (member : Directory.key name ∈ t.files) :
    ∃ i, s.directory.findIndex name = some i := by
  rw [← stores.holds_iff, ← Directory.findIndex_isSome_iff] at member
  exact Option.isSome_iff_exists.mp member

theorem findIndex_none (stores : s.Stores t) {name : Buf} (absent : Directory.key name ∉ t.files) :
    s.directory.findIndex name = none := by
  rw [← stores.holds_iff, ← Directory.findIndex_isSome_iff] at absent
  exact Option.not_isSome_iff_eq_none.mp absent

/-- A call that leaves the disk alone only has to keep the open files. -/
theorem of_disk (stores : s.Stores t) (files : SameFiles s s') (disk : s'.disk = s.disk)
    (inv : FsInvariant 0 s') {handles : Nat → Option Opened} {nextHandle : Nat}
    (opens : ∀ k, Option.Rel s.Opens (s'.handles k) (handles k))
    (next : nextHandle = s'.nextHandle) : s'.Stores { t with handles, nextHandle } := by
  have dir : s'.dirHdr = s.dirHdr := congrArg OpenFile.hdr files.dir
  have directory : s'.directory = s.directory := by
    unfold FileSystem.directory
    rw [dir, disk]
  have sector : ∀ i, s'.fileSector i = s.fileSector i := by
    intro i
    unfold fileSector
    rw [directory]
  have bytes : ∀ i, s'.bytesAt i = s.bytesAt i := by
    intro i
    unfold bytesAt fileHeader header
    rw [sector, disk]
  constructor
  · exact inv
  · simp only [directory, bytes]
    exact stores.files
  · intro k
    apply rel_imp (opens k)
    intro h o here
    apply here.keep
    intro _ i _ _ _
    exact ⟨⟨by rw [directory], by rw [directory], fun _ => by rw [disk]⟩, by rw [directory]⟩
  · exact next

theorem openName (stores : s.Stores t) (heap : Nat → Buf) (name : Buf) :
    ∃ s', s.openName heap name = .ok ((t.openName (Directory.key name)).1, s') ∧
      s'.Stores (t.openName (Directory.key name)).2 := by
  have inv := stores.inv
  unfold Store.openName
  by_cases member : Directory.key name ∈ t.files
  · obtain ⟨i, found⟩ := stores.findIndex_some member
    obtain ⟨hi, used⟩ := Directory.findIndex_some found
    refine ⟨s.withObject i, ?_, ?_⟩
    · rw [openName_some inv heap found, if_pos member, stores.nextHandle]
    · rw [if_pos member]
      have files : SameFiles s (s.withObject i) := ⟨rfl, rfl⟩
      apply stores.of_disk files rfl (inv.withObject hi used)
      · intro k
        unfold withObject
        rw [← stores.nextHandle]
        by_cases new : k = t.nextHandle
        · subst new
          simp only [Function.update_self]
          apply Option.Rel.some
          constructor
          · rfl
          · intro file same
            cases same
            exact ⟨rfl, i, hi, used, Directory.findIndex_key found, rfl⟩
        · simp only [Function.update_of_ne new]
          exact stores.handles k
      · exact congrArg (· + 1) stores.nextHandle
  · refine ⟨s, ?_, ?_⟩
    · rw [openName_none inv heap (stores.findIndex_none member), if_neg member]
    · rw [if_neg member]
      exact stores

theorem delete (stores : s.Stores t) (k : Nat) :
    (s.delete k).Stores { t with handles := Function.update t.handles k none } := by
  have files : SameFiles s (s.delete k) := ⟨rfl, rfl⟩
  apply stores.of_disk files rfl
  · apply stores.inv.of_disk files rfl
    intro j h open_
    by_cases deleted : j = k
    · rw [deleted, delete_handles_self] at open_
      cases open_
    · rw [delete_handles_other deleted] at open_
      exact .inl open_
  · intro j
    by_cases deleted : j = k
    · rw [deleted, delete_handles_self, Function.update_self]
      exact .none
    · rw [delete_handles_other deleted, Function.update_of_ne deleted]
      exact stores.handles j
  · exact stores.nextHandle

/-- The object behind an open file. -/
theorem handle (stores : s.Stores t) {k : Nat} {o : Opened} (here : t.handles k = some o) :
    ∃ h, s.handles k = some h ∧ s.Opens h o := by
  have rel := stores.handles k
  rw [here] at rel
  cases handle : s.handles k with
  | none =>
    rw [handle] at rel
    cases rel
  | some h =>
    rw [handle] at rel
    cases rel with
    | some opens => exact ⟨h, rfl, opens⟩

/-- The cached header leads to the array that the store has for the file. -/
theorem flat (stores : s.Stores t) {h : Handle} {o : Opened} (sound : s.Sound h)
    (opens : s.Opens h o) {name : List Byte} (file : o.file = some name) {i : Nat}
    (hi : i < NumDirEntries) (used : s.directory.inUse i = true)
    (key : Directory.key (s.directory.name i) = name) (sector : s.fileSector i = h.sector) :
    (s.fileHeader i).Same h.file.hdr ∧ h.file.flat s.disk = t.flat o := by
  have inv := stores.inv
  have valid := (inv.files i hi used).2.1
  have same : (s.fileHeader i).Same h.file.hdr := by
    obtain ⟨j, hj, used', sector', same⟩ := sound.live (opens.named name file).1
    cases fileSector_injective inv hi hj used used' (sector'.trans sector.symm)
    exact same
  refine ⟨same, ?_⟩
  have bytes := stores.files.lookup_key (i := ⟨i, hi⟩) used
  rw [key] at bytes
  unfold OpenFile.flat Store.flat
  rw [← same.contents valid, opens.position, file, Option.bind_some, bytes]
  rfl

/-- What is left after a write through an open file, of the file in entry `i`. -/
theorem written (stores : s.Stores t) {h h' : Handle} (sound : s.Sound h)
    (live : h.removed = false) (w : s.Written h s') {i k : Nat} (hi : i < NumDirEntries)
    (used : s.directory.inUse i = true) (sector : s.fileSector i = h.sector)
    (handles : s'.handles = Function.update s.handles k (some h'))
    (live' : h'.removed = false) (sector' : h'.sector = h.sector)
    (next : s'.nextHandle = s.nextHandle) :
    s'.Stores (t.withFlat k (Directory.key (s.directory.name i))
      ⟨s'.bytesAt i, h'.file.seekPosition⟩) := by
  have inv := stores.inv
  have writable : s.Writable h := .inl live
  have kept := fun j (hj : j < NumDirEntries) => w.keepsName inv sound writable hj
  constructor
  · exact w.invariant inv sound writable
  · apply stores.files.replace ⟨i, hi⟩ used
    · intro j
      rw [(kept j j.isLt).entry.inUse]
    · exact fun j _ => (kept j j.isLt).key
    · rfl
    · intro j usedj other
      unfold bytesAt
      rw [(kept j j.isLt).entry.fileHeader usedj]
      apply OpenFile.contents_congr (inv.files j j.isLt usedj).2.1
      intro x hx
      apply w.data inv sound writable j.isLt usedj _ hx
      intro ⟨_, both⟩
      exact other (Fin.ext (fileSector_injective inv hi j.isLt used usedj (both.trans sector.symm)))
  · intro j
    rw [handles]
    unfold Store.withFlat
    by_cases this : j = k
    · subst this
      simp only [Function.update_self]
      apply Option.Rel.some
      constructor
      · rfl
      · intro name' file'
        cases file'
        exact ⟨live', i, hi, (kept i hi).entry.inUse.trans used, (kept i hi).key,
          ((kept i hi).entry.fileSector.trans sector).trans sector'.symm⟩
    · simp only [Function.update_of_ne this]
      exact stores.handles_keep (fun i hi _ => kept i hi) j
  · rw [next]
    exact stores.nextHandle

/-- A call on an open file of a file that exists. -/
theorem access (stores : s.Stores t) (heap : Buf) {k : Nat} {o : Opened} {name : List Byte}
    {op : FileOp} (here : t.handles k = some o) (file : o.file = some name)
    (admissible : (t.flat o).Admissible op) :
    ∃ s', s.access heap k op = .ok (((t.flat o).step op).1, s') ∧
      s'.Stores (t.withFlat k name ((t.flat o).step op).2) := by
  have inv := stores.inv
  obtain ⟨h, open_, opens⟩ := stores.handle here
  have sound := inv.handles k h open_
  obtain ⟨live, i, hi, used, rfl, sector⟩ := opens.named name file
  obtain ⟨_, valid, nonneg⟩ := inv.files i hi used
  obtain ⟨same, flat⟩ := stores.flat sound opens file hi used rfl sector
  rw [same.numBytes] at nonneg
  rw [← flat] at admissible
  obtain ⟨result, f', disk', step, flat', hdr, positioned, frame⟩ :=
    OpenFile.step_refines sound.valid nonneg sound.positioned heap admissible
  rw [← flat, flat']
  generalize after : ({ s with
    disk := disk', handles := Function.update s.handles k (some { h with file := f' }) } :
      FileSystem) = s'
  have disk : s'.disk = disk' := by rw [← after]
  have handles : s'.handles = Function.update s.handles k (some { h with file := f' }) := by
    rw [← after]
  have w : s.Written h s' := by
    constructor
    · rw [← after]
      exact ⟨rfl, rfl⟩
    · rw [disk]
      exact frame
    · intro j h' same
      rw [handles] at same
      by_cases this : j = k
      · rw [this, Function.update_self, Option.some.injEq] at same
        refine .inr ⟨f'.seekPosition, positioned.1, positioned.2, ?_⟩
        dsimp only
        rw [← same, ← hdr]
      · rw [Function.update_of_ne this] at same
        exact .inl same
  have bytes : s'.bytesAt i = OpenFile.contents f'.hdr disk' := by
    unfold bytesAt
    rw [(w.keeps inv sound (.inl live) hi).fileHeader used, disk, same.contents valid, hdr]
  refine ⟨s', ?_, ?_⟩
  · unfold FileSystem.access
    simp only [open_, step, Exec.ok_bind, ← after]
  · have stored := stores.written sound live w hi used sector handles live rfl (by rw [← after])
    rw [bytes] at stored
    exact stored

end Stores

/-- `Remove` of a file that exists ends, and no entry gets another name. -/
theorem removeFile_total (inv : FsInvariant 0 s) (heap : Nat → Buf) {d : Directory} {name : Buf}
    {i : Nat} (entries : d.tableSize = NumDirEntries)
    (table : ∀ a < EntrySize * NumDirEntries, d.table a = s.directory.table a)
    (found : d.findIndex name = some i) :
    ∃ s', s.removeFile heap d name (d.sector i) = .ok (true, s') ∧
      s'.nextHandle = s.nextHandle ∧ ∀ j < NumDirEntries,
        Directory.key (s'.directory.name j) = Directory.key (s.directory.name j) := by
  obtain ⟨m, fetched, size, same⟩ := inv.system.fetchMap
  obtain ⟨hi, used⟩ := Directory.findIndex_some found
  rw [entries] at hi
  rw [Directory.inUse_congr (d := s.directory) table hi] at used
  have valid := (inv.files i hi used).2.1
  obtain ⟨onDisk, number⟩ := inv.fileSector_lt hi used
  have marked : ∀ x ∈ (s.fileHeader i).sectors, m.bit x = true := by
    intro x hx
    rw [same x (valid.mem_sectors hx)]
    have owned : x ∈ s.owned (.entry ⟨i, hi⟩) := by
      rw [FsInvariant.owned_entry ⟨i, hi⟩ used]
      exact List.mem_cons_of_mem _ hx
    exact ((inv.exact.marked_iff x).mpr ⟨_, owned⟩).2
  obtain ⟨m', cleared, size', _⟩ := FileHeader.deallocate_spec valid size marked
  obtain ⟨disk₁, disk₂, first, second, flushed⟩ := inv.system.flush_map_directory
    (d := d.setInUse i 0) (m := m'.cleared (s.fileSector i)) entries size' s.disk (heap 1) (heap 2)
  have removes : d.remove name = (true, d.setInUse i 0) := by
    unfold Directory.remove
    rw [found]
  have header : FileHeader.fetchFrom s.disk (s.fileSector i) = .ok (s.fileHeader i) := by
    unfold FileHeader.fetchFrom
    rw [Disk.readSector_valid onDisk]
    rfl
  refine ⟨{ s with disk := disk₂, handles := markRemoved s.handles (s.fileSector i) }, ?_, rfl, ?_⟩
  · unfold removeFile
    rw [Directory.sector_congr (d := s.directory) table hi, ← number, header, Exec.ok_bind, fetched,
      Exec.ok_bind, cleared, Exec.ok_bind, Bitmap.clear_inRange (by rw [size']; exact onDisk),
      Exec.ok_bind, removes]
    simp only [first, second, Exec.ok_bind]
    rfl
  · intro j hj
    calc Directory.key (Directory.name ⟨NumDirEntries, s.dirHdr.byteAt disk₂⟩ j)
        = Directory.key ((d.setInUse i 0).name j) := by
          apply chars_congr
          intro a ha
          exact Directory.name_congr (d := ⟨NumDirEntries, (d.setInUse i 0).table⟩)
            flushed.table hj ha
      _ = Directory.key (d.name j) := Directory.key_setInUse d i j 0
      _ = Directory.key (s.directory.name j) := by
          apply chars_congr
          intro a ha
          exact Directory.name_congr (d := s.directory) table hj ha

/-- The data of the other files is not written. -/
theorem Removed.bytesAt {i : Nat} (r : s.Removed i s') (inv : FsInvariant 0 s) {j : Nat}
    (hj : j < NumDirEntries) (other : j ≠ i) (used : s.directory.inUse j = true) :
    s'.bytesAt j = s.bytesAt j := by
  unfold FileSystem.bytesAt
  rw [(r.keeps inv hj other).fileHeader used]
  apply OpenFile.contents_congr (inv.files j hj used).2.1
  intro x hx
  have owned : x ∈ s.owned (.entry ⟨j, hj⟩) := by
    rw [FsInvariant.owned_entry ⟨j, hj⟩ used]
    exact List.mem_cons_of_mem _ hx
  have outside : x ∉ s.owned .system := by
    intro system
    have := inv.exact.disjoint _ _ _ system owned
    cases this
  obtain ⟨_, _, offMap, offDir⟩ := FsInvariant.not_mem_system outside
  exact r.frame x offMap offDir

namespace Stores

/-- The open files when the file in entry `i` is gone. -/
theorem removed_handles (stores : s.Stores t) {i : Nat} (r : s.Removed i s')
    (kept : ∀ j < NumDirEntries, j ≠ i → s.KeepsName s' j) (k : Nat) :
    Option.Rel s'.Opens (s'.handles k)
      ((t.without (Directory.key (s.directory.name i))).handles k) := by
  rw [r.handles]
  unfold markRemoved Store.without
  dsimp only
  generalize here : s.handles k = handle
  generalize there : t.handles k = o
  have rel := stores.handles k
  rw [here, there] at rel
  cases rel with
  | none => exact .none
  | @some h o opens =>
    apply Option.Rel.some
    dsimp only
    split
    next gone =>
      constructor
      · exact opens.position
      · intro name file
        cases file
    next other =>
      constructor
      · exact opens.position
      · intro name file
        obtain ⟨live, j, hj, used, key, sector⟩ := opens.named name file
        have apart : j ≠ i := by
          intro same
          apply other
          rw [file, ← key, same]
        have alive : (h.sector == s.fileSector i) = false := by
          rw [beq_eq_false_iff_ne, ← sector]
          intro same
          exact apart (fileSector_injective stores.inv r.range hj r.used used same)
        refine ⟨?_, j, hj, ?_, ?_, ?_⟩
        · rw [live, alive]
          rfl
        · exact (kept j hj apart).entry.inUse.trans used
        · exact (kept j hj apart).key.trans key
        · exact (kept j hj apart).entry.fileSector.trans sector

theorem removed (stores : s.Stores t) {i : Nat} (r : s.Removed i s')
    (keys : ∀ j < NumDirEntries,
      Directory.key (s'.directory.name j) = Directory.key (s.directory.name j))
    (next : s'.nextHandle = s.nextHandle) :
    s'.Stores (t.without (Directory.key (s.directory.name i))) := by
  have inv := stores.inv
  have still : ∀ j : Fin NumDirEntries, s'.directory.inUse j = true ↔
      s.directory.inUse j = true ∧ j ≠ ⟨i, r.range⟩ := by
    intro j
    rw [r.inUse j j.isLt, Ne, Fin.ext_iff]
    split <;> simp_all
  constructor
  · exact r.invariant inv
  · apply stores.files.erase ⟨i, r.range⟩ r.used still
    · exact fun j _ => keys j j.isLt
    · intro j used
      obtain ⟨used, other⟩ := (still j).mp used
      exact r.bytesAt inv j.isLt (fun same => other (Fin.ext same)) used
  · intro k
    apply stores.removed_handles r
    exact fun j hj other => ⟨r.keeps inv hj other, keys j hj⟩
  · rw [next]
    exact stores.nextHandle

theorem remove (stores : s.Stores t) (heap : Nat → Buf) (name : Buf) :
    (Directory.key name ∈ t.files ∧ ∃ s', s.remove heap name = .ok (true, s') ∧
      s'.Stores (t.without (Directory.key name))) ∨
    Directory.key name ∉ t.files ∧ s.remove heap name = .ok (false, s) := by
  have inv := stores.inv
  obtain ⟨d, fetched, entries, table⟩ := inv.system.fetchDirectory (heap 0)
  have known := find_ne_iff inv entries table name
  unfold FileSystem.remove
  rw [fetched, Exec.ok_bind]
  rw [stores.holds_iff] at known
  by_cases missing : d.find name = -1
  · refine .inr ⟨fun member => known.mpr member missing, ?_⟩
    rw [if_pos missing]
  · obtain ⟨i, index⟩ := stores.findIndex_some (known.mp missing)
    have found : d.findIndex name = some i := by
      rw [Directory.findIndex_congr (d := s.directory) entries table name]
      exact index
    have sector : d.find name = d.sector i := by
      unfold Directory.find
      rw [found]
    obtain ⟨s', run, next, keys⟩ := removeFile_total inv heap entries table found
    have r := removeFile_cases inv entries table found run
    refine .inl ⟨known.mp missing, s', ?_, ?_⟩
    · rw [if_neg missing, sector, run]
    · rw [← Directory.findIndex_key index]
      exact stores.removed r keys next

end Stores

/-- The file system that finds its two files on the disk. -/
def mounted (disk : Disk) : FileSystem where
  disk := disk
  freeMapFile := ⟨disk.header FreeMapSector, 0⟩
  directoryFile := ⟨disk.header DirectorySector, 0⟩
  openf := fun _ => none
  handles := fun _ => none
  nextHandle := 0

theorem mount_eq (disk : Disk) : TypedSystem.mount disk = .ok (mounted disk) := by
  have sectors : FreeMapSector < NumSectors ∧ DirectorySector < NumSectors := by decide
  unfold TypedSystem.mount OpenFile.new FileHeader.fetchFrom
  simp only [Disk.readSector_valid sectors.1, Disk.readSector_valid sectors.2, Exec.ok_bind]
  rfl

end FileSystem

namespace FsInvariant
open FileSystem

variable {s : FileSystem}

theorem disk_key (inv : FsInvariant 0 s) {i : Nat} (hi : i < NumDirEntries) :
    Directory.key (s.disk.directory.name i) = Directory.key (s.directory.name i) := by
  have valid := inv.dirOnDisk.symm.valid inv.system.dir
  apply chars_congr
  intro k hk
  apply Directory.name_congr _ hi hk
  intro a ha
  apply inv.dirOnDisk.byteAt valid
  rw [inv.dirOnDisk.numBytes, inv.system.dirLength]
  unfold DirectoryFileSize
  change a < EntrySize * NumDirEntries at ha
  omega

theorem disk_bytes (inv : FsInvariant 0 s) {i : Nat} (hi : i < NumDirEntries) :
    (mounted s.disk).bytesAt i = s.bytesAt i := by
  unfold bytesAt
  rw [← inv.disk_fileHeader hi]
  rfl

/-- A file system that is stopped and mounted again is sound. -/
theorem mounted (inv : FsInvariant 0 s) : FsInvariant 0 (mounted s.disk) := by
  have map := inv.mapOnDisk.symm.valid inv.system.map
  have dir := inv.dirOnDisk.symm.valid inv.system.dir
  constructor
  · constructor
    · exact map
    · exact inv.mapOnDisk.numBytes.trans inv.system.mapLength
    · exact dir
    · exact inv.dirOnDisk.numBytes.trans inv.system.dirLength
    · have nodup := inv.system.nodup
      rw [← inv.disk_systemSectors] at nodup
      exact nodup
  · exact ⟨fun _ _ => rfl⟩
  · exact ⟨fun _ _ => rfl⟩
  · intro i hi used
    have before := (inv.disk_directory hi).1.symm.trans used
    obtain ⟨sector, valid, nonneg⟩ := inv.files i hi before
    rw [← inv.disk_fileHeader hi] at valid nonneg
    rw [← (inv.disk_directory hi).2] at sector
    exact ⟨sector, valid, nonneg⟩
  · apply inv.exact.congr
    · intro x
      unfold Marked
      apply and_congr_right
      intro hx
      rw [← inv.disk_freeMap hx]
      rfl
    · intro o
      cases o with
      | system => exact inv.disk_systemSectors
      | entry i => exact inv.disk_entrySectors i
  · intro k h open_
    cases open_

end FsInvariant

namespace FileSystem

variable {s s' : FileSystem} {t : Store}

/-- The disk keeps all files. -/
theorem Stores.mounted (stores : s.Stores t) :
    (mounted s.disk).Stores { t with handles := fun _ => none, nextHandle := 0 } := by
  have inv := stores.inv
  constructor
  · exact inv.mounted
  · apply stores.files.congr
    · intro i
      rw [← (inv.disk_directory i.isLt).1]
      rfl
    · exact fun i _ => inv.disk_key i.isLt
    · exact fun i _ => inv.disk_bytes i.isLt
  · exact fun _ => .none
  · rfl

/-- `FileSystem(TRUE)` has room for its two files, and there are no others. -/
theorem format_stores (disk : Disk) (heap : Nat → Buf) :
    ∃ s, format disk heap = .ok s ∧ s.Stores Store.empty := by
  obtain ⟨mapHdr, dirHdr, m, m', first, second, formatted⟩ := format_allocates ⟨heap 1⟩ ⟨heap 2⟩
  have sys := formatted.system disk
  obtain ⟨disk₁, disk₂, writeMap, writeDirectory, flushed⟩ := sys.flush_map_directory
    (d := Directory.new (heap 0) NumDirEntries) rfl formatted.size
    (opened disk mapHdr dirHdr).disk (heap 3) (heap 4)
  refine ⟨{ opened disk mapHdr dirHdr with disk := disk₂ }, ?_, ?_, ?_, ?_, ?_⟩
  · rw [format_eq first second]
    simp only [writeMap, writeDirectory, Exec.ok_bind]
  · exact formatted.invariant flushed
  · apply Tabulates.empty
    intro i used
    have files : SameFiles (opened disk mapHdr dirHdr)
      { opened disk mapHdr dirHdr with disk := disk₂ } := ⟨rfl, rfl⟩
    rw [(directory_of_table files flushed.table rfl i.isLt).1,
      Directory.new_inUse (heap 0) i.isLt] at used
    cases used
  · exact fun _ => .none
  · rfl

/-- The table of open files is not a part of what is stored. -/
theorem Stores.slots (stores : s.Stores t) (openf : Nat → Option Nat) :
    FileSystem.Stores { s with openf } t := by
  have files : SameFiles s { s with openf } := ⟨rfl, rfl⟩
  apply stores.of_disk files rfl
  · exact stores.inv.of_disk files rfl fun _ _ => .inl
  · exact stores.handles
  · exact stores.nextHandle

end FileSystem

namespace TypedSystem

variable {s : TypedSystem} {t : Store}

/-- `Open` with a free slot in the table. -/
theorem openType_stores (stores : s.fs.Stores t) {slot : Nat}
    (free : s.fs.findFreeSlot = some slot) (heap : Nat → Buf) (name : Buf) (type : Int) :
    ∃ r s', s.openType heap name type = .ok (r, s') ∧
      s'.fs.Stores (t.openName (Directory.key name)).2 := by
  obtain ⟨fs, run, after⟩ := stores.openName heap name
  unfold FileSystem.openName at run
  obtain ⟨directory, fetched, run⟩ := Exec.bind_eq_ok.mp run
  unfold openType
  simp only [free, fetched, Exec.ok_bind]
  split at run
  next found =>
    obtain ⟨⟨k, fs'⟩, made, run⟩ := Exec.bind_eq_ok.mp run
    simp only [Except.ok.injEq, Prod.mk.injEq] at run
    obtain ⟨_, rfl⟩ := run
    exact ⟨some k, _, by rw [if_pos found, made, Exec.ok_bind], after.slots _⟩
  next missing =>
    simp only [Except.ok.injEq, Prod.mk.injEq] at run
    obtain ⟨_, rfl⟩ := run
    exact ⟨s.fs.openf slot, s, by rw [if_neg missing], after⟩

/-- `Create` of an empty file. -/
theorem create_stores (stores : s.fs.Stores t) (heap : Nat → Buf) (name : Buf) :
    ∃ created s', s.create heap name 0 = .ok (created, s') ∧
      s'.fs.Stores (t.withEmpty (Directory.key name)) := by
  unfold create Store.withEmpty
  rcases stores.create heap name (Int.le_refl 0) (by decide) with
    ⟨room, fs, bytes, run, length, after⟩ | ⟨full, run⟩
  · rw [List.eq_nil_of_length_eq_zero length] at after
    refine ⟨true, { s with fs }, by rw [run, Exec.ok_bind], ?_⟩
    rw [Int.toNat_zero] at room
    rw [if_pos room]
    exact after
  · refine ⟨false, s, by rw [run, Exec.ok_bind], ?_⟩
    rw [Int.toNat_zero] at full
    rw [if_neg full]
    exact stores

/-- Both constructors end, whatever is on the disk otherwise. -/
theorem construct_stores {format : Bool} {disk : Disk} {heap : Nat → Nat → Buf} {fs : FileSystem}
    (started : start format disk (heap 0) = .ok fs) (stores : fs.Stores t) :
    ∃ s, construct format disk heap = .ok s ∧ s.fs.Stores t.withConsole := by
  have blank := start_openf started
  have free₁ : fs.findFreeSlot = some 2 := by
    unfold FileSystem.findFreeSlot
    rw [blank]
    rfl
  obtain ⟨input, s₁, open₁, stores₁⟩ := openType_stores (s := ⟨fs, fun _ => none⟩) stores free₁
    (heap 1) (cString ['s', 't', 'd', 'i', 'n']) 2
  have slots₁ : s₁.fs.openf = Function.update fs.openf 2 input := by
    obtain ⟨slot, free, slots⟩ := openType_openf open₁
    cases free₁.symm.trans free
    exact slots
  obtain ⟨slot, free₂⟩ : ∃ slot, (s₁.setSlot 0 input).fs.findFreeSlot = some slot := by
    unfold setSlot FileSystem.findFreeSlot
    rw [slots₁, blank]
    cases input with
    | none => exact ⟨2, rfl⟩
    | some a => exact ⟨3, rfl⟩
  obtain ⟨output, s₂, open₂, stores₂⟩ := openType_stores (s := s₁.setSlot 0 input)
    (stores₁.slots _) free₂ (heap 2) (cString ['s', 't', 'd', 'o', 'u', 't']) 3
  obtain ⟨created₁, s₃, create₁, stores₃⟩ := create_stores (s := s₂.setSlot 1 output)
    (stores₂.slots _) (heap 3) (cString ['s', 't', 'd', 'i', 'n'])
  obtain ⟨created₂, s₄, create₂, stores₄⟩ := create_stores stores₃ (heap 4)
    (cString ['s', 't', 'd', 'o', 'u', 't'])
  refine ⟨s₄, ?_, stores₄⟩
  unfold construct
  simp only [started, Exec.ok_bind, open₁, open₂, create₁, create₂]

theorem construct_formatted (disk : Disk) (heap : Nat → Nat → Buf) :
    ∃ s, construct true disk heap = .ok s ∧ s.fs.Stores Store.empty.withConsole := by
  obtain ⟨fs, run, stores⟩ := FileSystem.format_stores disk (heap 0)
  exact construct_stores run stores

theorem construct_restarted {fs : FileSystem} (stores : fs.Stores t) (heap : Nat → Nat → Buf) :
    ∃ s, construct false fs.disk heap = .ok s ∧ s.fs.Stores t.restarted :=
  construct_stores (FileSystem.mount_eq fs.disk) stores.mounted

end TypedSystem

namespace FileSystem

variable {s : FileSystem} {t : Store}

/-- Each call of the file system is a step of the store. -/
theorem perform_simulates (call : (Nat → Nat → Buf) × FsCall) (s : FileSystem) (t : Store)
    (stores : s.Stores t) (legal : fsService.legal call t) :
    ∃ answer s' t', fsService.step call s = some (answer, s') ∧
      fsService.spec call answer t t' ∧ s'.Stores t' := by
  obtain ⟨heap, call⟩ := call
  have steps : ∀ {answer s'}, s.perform heap call = .ok (answer, s') →
      fsService.step (heap, call) s = some (answer, s') := by
    intro answer s' run
    exact congrArg Except.toOption run
  cases call with
  | create name initialSize =>
    obtain ⟨nonneg, fits⟩ := legal
    rcases stores.create (heap 0) name nonneg fits with
      ⟨room, s', bytes, run, length, after⟩ | ⟨full, run⟩
    · refine ⟨.done true, s', _, steps ?_, .created room length, after⟩
      simp only [perform, run, Exec.ok_bind]
    · refine ⟨.done false, s, t, steps ?_, .refused full, stores⟩
      simp only [perform, run, Exec.ok_bind]
  | remove name =>
    rcases stores.remove (heap 0) name with ⟨there, s', run, after⟩ | ⟨absent, run⟩
    · refine ⟨.done true, s', _, steps ?_, .removed there, after⟩
      simp only [perform, run, Exec.ok_bind]
    · refine ⟨.done false, s, t, steps ?_, .missing absent, stores⟩
      simp only [perform, run, Exec.ok_bind]
  | openName name =>
    obtain ⟨s', run, after⟩ := stores.openName (heap 0) name
    refine ⟨_, s', _, steps ?_, .opened t name, after⟩
    simp only [perform, run, Exec.ok_bind]
  | access k op =>
    obtain ⟨o, here, file, admissible⟩ := legal
    obtain ⟨name, file⟩ := Option.isSome_iff_exists.mp file
    obtain ⟨s', run, after⟩ := stores.access (heap 0 0) here file admissible
    refine ⟨_, s', _, steps ?_, .accessed op here file, after⟩
    simp only [perform, run, Exec.ok_bind]
  | delete k =>
    obtain ⟨o, here⟩ := Option.isSome_iff_exists.mp legal
    obtain ⟨h, open_, _⟩ := stores.handle here
    refine ⟨_, _, _, steps ?_, .deleted t k, stores.delete k⟩
    simp only [perform, object, open_, Exec.ok_bind]
  | restart =>
    obtain ⟨s', run, after⟩ := TypedSystem.construct_restarted stores heap
    refine ⟨_, s'.fs, _, steps ?_, .restarted t, after⟩
    simp only [perform, run, Exec.ok_bind]

end FileSystem

/-- The directory and the free map on the disk are those of the store. -/
structure Disk.Holds (disk : Disk) (t : Store) : Prop where
  files : ∀ name bytes, t.files.lookup name = some bytes ↔ ∃ i < NumDirEntries,
    disk.directory.inUse i = true ∧ Directory.key (disk.directory.name i) = name ∧
      disk.fileContents i = bytes
  space : disk.freeMap.numClear + t.used = DataSectors

theorem FileSystem.Stores.disk {s : FileSystem} {t : Store} (stores : s.Stores t) :
    s.disk.Holds t := by
  have again := stores.mounted
  constructor
  · intro name bytes
    rw [again.files.lookup_iff]
    constructor
    · intro ⟨i, here⟩
      exact ⟨i, i.isLt, here⟩
    · intro ⟨i, hi, here⟩
      exact ⟨⟨i, hi⟩, here⟩
  · exact again.numClear_add

/-- Every run of legal calls on a disk that was formatted ends, through any number of
restarts; it gives the answers that the store allows, and the disk holds what is in the store
in the end. -/
theorem fileSystem_refines_store (disk : Disk) (heap : Nat → Nat → Buf)
    (calls : List ((Nat → Nat → Buf) × FsCall))
    (legal : fsService.Legal calls Store.empty.withConsole) :
    ∃ s answers s' t, TypedSystem.construct true disk heap = .ok s ∧
      fsService.run calls s.fs = some (answers, s') ∧
      fsService.Allows calls answers Store.empty.withConsole t ∧ s'.disk.Holds t := by
  obtain ⟨s, formatted, stores⟩ := TypedSystem.construct_formatted disk heap
  obtain ⟨answers, s', t, run, allows, stores'⟩ :=
    Service.simulates_run FileSystem.perform_simulates calls stores legal
  exact ⟨s, answers, s', t, formatted, run, allows, stores'.disk⟩

/-- A file of five bytes is made, opened and written before the machine is started again. -/
def restartCalls : List ((Nat → Nat → Buf) × FsCall) :=
  [(fun _ _ => blank, .create (cString ['a']) 5), (fun _ _ => blank, .openName (cString ['a'])),
    (fun _ _ => blank, .access 0 (.write ones 5)), (fun _ _ => blank, .restart)]

theorem restartCalls_legal : fsService.Legal restartCalls Store.empty.withConsole := by
  have room : Store.empty.withConsole.HasRoom (Directory.key (cString ['a'])) 5 := by
    decide +kernel
  have first : Store.empty.withConsole.nextHandle = 0 := by decide +kernel
  have size : 0 ≤ (5 : CInt).toInt ∧ (5 : CInt).toInt ≤ MaxFileSize := by decide
  refine ⟨size, fun answer t created => ?_⟩
  cases created with
  | refused full => exact absurd room full
  | @created _ _ _ bytes _ length =>
    refine ⟨trivial, fun answer t opened => ?_⟩
    cases opened with
    | opened =>
      have member : Directory.key (cString ['a']) ∈
          (Store.empty.withConsole.withFile (Directory.key (cString ['a'])) bytes).files :=
        Finmap.mem_insert.mpr (.inl rfl)
      unfold Store.openName
      rw [if_pos member]
      refine ⟨⟨⟨some (Directory.key (cString ['a'])), 0⟩, ?_, rfl, ?_⟩, fun _ _ _ =>
        ⟨trivial, fun _ _ _ => trivial⟩⟩
      · unfold Store.withOpened Store.withFile
        dsimp only
        rw [first, Function.update_self]
      · change (0 : Int) + 5 ≤ INT_MAX
        decide

theorem fileSystem_refines_store_restart : ∃ s answers s' t,
    TypedSystem.construct true (fun _ => blank) (fun _ _ => ones) = .ok s ∧
      fsService.run restartCalls s.fs = some (answers, s') ∧
      fsService.Allows restartCalls answers Store.empty.withConsole t ∧ s'.disk.Holds t :=
  fileSystem_refines_store _ _ restartCalls restartCalls_legal

end NachOS.Filesys
