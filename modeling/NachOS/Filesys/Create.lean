import NachOS.Filesys.Consistency

/-!
# When `Create` succeeds and what it changes (filesys/filesys.cc:186-226)

`Create` claims a sector for the header, an entry of the directory and the sectors
of the data, one after the other, all of them in copies of the directory and of the
free map. The copies are flushed only when nothing failed.

`create_exact` says when that is the case, that a `Create` that fails leaves the
state as it was, and that one that succeeds touches no other file.
-/
namespace NachOS.Filesys
open NachOS.Lib NachOS.Library

namespace FileSystem

variable {low : Int} {s s' : FileSystem}

/-- The state after a new file with its header at sector `n` got entry `i`. -/
structure OneMore (s : FileSystem) (i n : Nat) (s' : FileSystem) : Prop where
  range : i < NumDirEntries
  unused : s.directory.inUse i = false
  used : s'.directory.inUse i = true
  sector : s'.directory.sector i = n
  disk : ∀ x, x ∉ s.dirHdr.sectors → x ∉ s.mapHdr.sectors → x ≠ n → s'.disk x = s.disk x
  entries : ∀ j < NumDirEntries, j ≠ i → ∀ k < EntrySize,
    s'.directory.table (EntrySize * j + k) = s.directory.table (EntrySize * j + k)
  headers : ∀ j < NumDirEntries, s.directory.inUse j = true → s'.fileHeader j = s.fileHeader j
  contents : ∀ j < NumDirEntries, s.directory.inUse j = true →
    OpenFile.contents (s'.fileHeader j) s'.disk = OpenFile.contents (s.fileHeader j) s.disk

/-- Without a match the lookup of `Create` gives -1, as sector numbers are not negative. -/
theorem find_ne_iff (inv : FsInvariant low s) {d : Directory}
    (entries : d.tableSize = NumDirEntries)
    (table : ∀ a < EntrySize * NumDirEntries, d.table a = s.directory.table a) (name : Buf) :
    d.find name ≠ -1 ↔ s.directory.Holds name := by
  rw [← Directory.holds_congr (d := s.directory) entries table, ← Directory.findIndex_isSome_iff]
  unfold Directory.find
  cases found : d.findIndex name with
  | none => simp
  | some i =>
    obtain ⟨hi, used⟩ := Directory.findIndex_some found
    rw [entries] at hi
    rw [Directory.inUse_congr (d := s.directory) table hi] at used
    have valid := (inv.files i hi used).1.1
    rw [← Directory.sector_congr (d := s.directory) table hi] at valid
    simp only [Option.isSome_some, iff_true, ne_eq]
    omega

/-- Everything that `Create` can do, for a size that a header can hold. -/
theorem create_spec (inv : FsInvariant low s) (heap : Nat → Buf) (name : Buf) {initialSize : Int}
    (small : -2147483648 ≤ initialSize) (fits : initialSize ≤ MaxFileSize) :
    (s.Room name initialSize ∧ ∃ i n hdr s',
      s.create heap name initialSize = .ok (true, s') ∧ s.Created i n hdr s' ∧
      hdr.numBytes = initialSize ∧ s.directory.Filled i name s'.directory) ∨
    ¬s.Room name initialSize ∧ s.create heap name initialSize = .ok (false, s) := by
  obtain ⟨d, fetched, entries, table⟩ := inv.system.fetchDirectory (heap 0)
  unfold create
  rw [fetched, Exec.ok_bind]
  split
  next known =>
    rw [find_ne_iff inv entries table] at known
    exact .inr ⟨fun room => room.fresh known, rfl⟩
  next => exact createNew_spec inv heap name small fits entries table

theorem room_iff {name : Buf} {initialSize : Int} (nonneg : 0 ≤ initialSize) :
    s.Room name initialSize ↔ ¬s.directory.Holds name ∧ s.directory.HasFree ∧
      1 + (initialSize + (SectorSize - 1)) / SectorSize ≤ (s.freeMap.numClear : Int) := by
  rw [← divRoundUp_nonneg nonneg]
  constructor
  · intro room
    exact ⟨room.fresh, room.entry, room.data⟩
  · intro ⟨fresh, entry, data⟩
    refine ⟨fresh, entry, ?_, data⟩
    have count := divRoundUp_nonneg nonneg
    unfold SectorSize at *
    omega

namespace Created

variable {i n : Nat} {hdr : FileHeader}

/-- The data sectors of the other files are not written. -/
theorem data (c : s.Created i n hdr s') (inv : FsInvariant low s) {j : Nat} (hj : j < NumDirEntries)
    (used : s.directory.inUse j = true) {x : Nat} (member : x ∈ (s.fileHeader j).sectors) :
    s'.disk x = s.disk x := by
  have owned : x ∈ s.owned (.entry ⟨j, hj⟩) := by
    rw [FsInvariant.owned_entry ⟨j, hj⟩ used]
    exact List.mem_cons_of_mem _ member
  have outside : x ∉ s.owned .system := by
    intro system
    have := inv.exact.disjoint _ _ _ system owned
    cases this
  obtain ⟨_, _, offMap, offDir⟩ := FsInvariant.not_mem_system outside
  apply c.frame x _ offMap offDir
  intro same
  exact inv.unmarked_not_owned c.unmarked _ (same ▸ owned)

theorem contents (c : s.Created i n hdr s') (inv : FsInvariant low s) {j : Nat}
    (hj : j < NumDirEntries) (used : s.directory.inUse j = true) :
    s'.fileHeader j = s.fileHeader j ∧
      OpenFile.contents (s'.fileHeader j) s'.disk = OpenFile.contents (s.fileHeader j) s.disk := by
  have header := (c.keeps inv hj (c.ne_of_used used)).fileHeader used
  have valid := (inv.files j hj used).2.1
  refine ⟨header, ?_⟩
  rw [header]
  exact OpenFile.contents_congr valid fun x hx => c.data inv hj used hx

theorem oneMore (c : s.Created i n hdr s') (inv : FsInvariant low s) {name : Buf}
    (filled : s.directory.Filled i name s'.directory) : s.OneMore i n s' := by
  constructor
  · exact c.range
  · exact c.unused
  · rw [c.inUse i c.range, if_pos rfl]
  · rw [c.sector i c.range, if_pos rfl]
  · exact fun x hd hm hn => c.frame x hn hm hd
  · intro j hj other k hk
    apply filled.frame
    · change _ < EntrySize * NumDirEntries
      unfold EntrySize at *
      omega
    · unfold EntrySize at *
      omega
  · exact fun j hj used => (c.contents inv hj used).1
  · exact fun j hj used => (c.contents inv hj used).2

end Created

end FileSystem

/-- `Create` succeeds exactly if the name is new and there are a free entry and enough
free sectors; otherwise it changes nothing. -/
theorem create_exact {low : Int} {s : FileSystem} (inv : FsInvariant low s) (heap : Nat → Buf)
    (name : Buf) {initialSize : Int} (nonneg : 0 ≤ initialSize) (fits : initialSize ≤ MaxFileSize) :
    ∃ created s', s.create heap name initialSize = .ok (created, s') ∧
      (created = true ↔ ¬s.directory.Holds name ∧ s.directory.HasFree ∧
        1 + (initialSize + (SectorSize - 1)) / SectorSize ≤ (s.freeMap.numClear : Int)) ∧
      (created = false → s' = s) ∧
      (created = true → ∃ i n, s.OneMore i n s') := by
  rw [← FileSystem.room_iff nonneg]
  rcases FileSystem.create_spec inv heap name (by omega) fits with
    ⟨room, i, n, hdr, s', run, c, _, filled⟩ | ⟨full, run⟩
  · refine ⟨true, s', run, ?_, ?_, ?_⟩
    · exact iff_of_true rfl room
    · intro failed
      cases failed
    · exact fun _ => ⟨i, n, c.oneMore inv filled⟩
  · refine ⟨false, s, run, ?_, fun _ => rfl, ?_⟩
    · exact iff_of_false (by decide) full
    · intro succeeded
      cases succeeded

theorem create_exact_second_file : ∃ s, twoSectorRun = some s ∧
    ∃ created s', s.create (fun _ => blank) (cString ['b']) 300 = .ok (created, s') ∧
      (created = true ↔ ¬s.directory.Holds (cString ['b']) ∧ s.directory.HasFree ∧
        (4 : Int) ≤ s.freeMap.numClear) ∧
      (created = false → s' = s) ∧
      (created = true → ∃ i n, s.OneMore i n s') := by
  obtain ⟨s, _, _, run, _⟩ := twoSectorRun_live
  have reachable : fsMachine.ReachableUnder (FsEvent.Careful 0) s := twoSectorRun_reachable
    (fun _ => ⟨by decide, .inl (by decide)⟩) (fun _ => trivial) run
  have inv := fsInvariant_of_reachable (by decide) reachable
  exact ⟨s, run, create_exact inv (fun _ => blank) (cString ['b']) (by decide) (by decide)⟩

end NachOS.Filesys
