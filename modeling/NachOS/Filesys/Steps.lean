import NachOS.Filesys.Allocation

/-!
# What the calls of the disk file system do

For `Create` and `Remove` one lemma says everything a call can do: nothing, or
fill or clear one entry of the directory together with the bits of its sectors.
The allocation invariant of the state after the call follows from that, as it
does for the two `Open` functions, which only make a new object.
-/
namespace NachOS.Filesys
open NachOS.Lib NachOS.Library

namespace FileSystem

variable {low : Int} {s s' : FileSystem}

/-- What a successful `Create` does: entry `i` is filled with a header at sector
`n`, both of them free before. -/
structure Created (s : FileSystem) (i n : Nat) (hdr : FileHeader) (s' : FileSystem) : Prop where
  files : SameFiles s s'
  handles : s'.handles = s.handles
  range : i < NumDirEntries
  unused : s.directory.inUse i = false
  onDisk : n < NumSectors
  unmarked : s.freeMap.bit n = false
  valid : hdr.Valid
  fresh : ∀ x ∈ hdr.sectors, x ≠ n ∧ s.freeMap.bit x = false
  inUse : ∀ j < NumDirEntries,
    s'.directory.inUse j = if j = i then true else s.directory.inUse j
  sector : ∀ j < NumDirEntries,
    s'.directory.sector j = if j = i then (n : Int) else s.directory.sector j
  bits : ∀ x < NumSectors,
    s'.freeMap.bit x = true ↔ x ∈ n :: hdr.sectors ∨ s.freeMap.bit x = true
  stored : (s'.header n).Same hdr
  frame : ∀ x, x ≠ n → x ∉ s.mapHdr.sectors → x ∉ s.dirHdr.sectors → s'.disk x = s.disk x

/-- The last part of `Create`: the header is written to its sector, then directory
and map are flushed. -/
theorem created_of_flush (inv : FsInvariant low s) {d : Directory} {m : Bitmap}
    {i n : Nat} {hdr : FileHeader} {disk' : Disk}
    (hi : i < NumDirEntries) (unused : s.directory.inUse i = false)
    (onDisk : n < NumSectors) (unmarked : s.freeMap.bit n = false) (valid : hdr.Valid)
    (fresh : ∀ x ∈ hdr.sectors, x ≠ n ∧ s.freeMap.bit x = false)
    (entries : d.tableSize = NumDirEntries)
    (inUse : ∀ j < NumDirEntries, d.inUse j = if j = i then true else s.directory.inUse j)
    (sector : ∀ j < NumDirEntries, d.sector j = if j = i then (n : Int) else s.directory.sector j)
    (bits : ∀ x < NumSectors, m.bit x = true ↔ x ∈ n :: hdr.sectors ∨ s.freeMap.bit x = true)
    (flushed : s.Flushed d m (s.disk.put n hdr.bytes) disk') :
    s.Created i n hdr { s with disk := disk' } := by
  have same : SameFiles s { s with disk := disk' } := ⟨rfl, rfl⟩
  obtain ⟨_, _, offMap, offDir⟩ :=
    FsInvariant.not_mem_system (inv.unmarked_not_owned unmarked .system)
  constructor
  · exact same
  · rfl
  · exact hi
  · exact unused
  · exact onDisk
  · exact unmarked
  · exact valid
  · exact fresh
  · intro j hj
    rw [(directory_of_table same flushed.table entries hj).1, inUse j hj]
  · intro j hj
    rw [(directory_of_table same flushed.table entries hj).2, sector j hj]
  · intro x hx
    rw [freeMap_of_bytes same flushed.map hx, bits x hx]
  · constructor
    intro k hk
    change disk' n k = hdr.bytes k
    rw [flushed.frame n offMap offDir]
    exact Disk.put_self hk
  · intro x hx hm hd
    change disk' x = s.disk x
    rw [flushed.frame x hm hd]
    exact Disk.put_other hx

/-- What `Create` needs: a name that is new, a free entry, a sector for the header
and sectors for the data. -/
structure Room (s : FileSystem) (name : Buf) (initialSize : Int) : Prop where
  fresh : ¬s.directory.Holds name
  entry : s.directory.HasFree
  header : 0 < s.freeMap.numClear
  data : 1 + divRoundUp initialSize SectorSize ≤ (s.freeMap.numClear : Int)

/-- The flush of `Create`, from the entry and the sectors that were found in the
copies `d` and `m` of directory and map. -/
theorem createNew_flush (inv : FsInvariant low s) (heap : Nat → Buf) {d d' : Directory}
    {m m' : Bitmap} {name : Buf} {i n : Nat} {hdr : FileHeader}
    (entries : d.tableSize = NumDirEntries)
    (table : ∀ a < EntrySize * NumDirEntries, d.table a = s.directory.table a)
    (same : ∀ x < NumSectors, m.bit x = s.freeMap.bit x)
    (range : n < NumSectors) (unset : m.bit n = false)
    (hi : i < d.tableSize) (unused : d.inUse i = false) (entries' : d'.tableSize = d.tableSize)
    (inUse : ∀ j, d'.inUse j = if j = i then true else d.inUse j)
    (sector : ∀ j, d'.sector j = if j = i then (n : Int) else d.sector j)
    (filled : d.Filled i name d') (valid : hdr.Valid) (size' : m'.numBits = NumSectors)
    (fresh : ∀ x ∈ hdr.sectors, (m.marked n).bit x = false)
    (bits : ∀ x, m'.bit x = true ↔ x ∈ hdr.sectors ∨ (m.marked n).bit x = true) :
    ∃ disk₁ disk₂, d'.writeBack (s.disk.put n hdr.bytes) s.directoryFile (heap 2) = .ok disk₁ ∧
      PersistentBitmap.writeBack m' disk₁ s.freeMapFile (heap 3) = .ok disk₂ ∧
      s.Created i n hdr { s with disk := disk₂ } ∧
      s.directory.Filled i name ({ s with disk := disk₂ } : FileSystem).directory := by
  obtain ⟨disk₁, disk₂, first, second, flushed⟩ := inv.system.flush_directory_map
    (entries'.trans entries) size' (s.disk.put n hdr.bytes) (heap 2) (heap 3)
  have kept : ∀ j < NumDirEntries, d.inUse j = s.directory.inUse j ∧
      d.sector j = s.directory.sector j := fun j hj =>
    ⟨Directory.inUse_congr table hj, Directory.sector_congr table hj⟩
  have onMap : ∀ x < NumSectors, (m.marked n).bit x = true ↔
      x = n ∨ s.freeMap.bit x = true := by
    intro x hx
    rw [Bitmap.bit_marked, same x hx, Bool.or_eq_true, decide_eq_true_iff]
  have hi' := hi
  rw [entries] at hi'
  refine ⟨disk₁, disk₂, first, second, created_of_flush inv hi' ?_ range ?_ valid ?_
    (entries'.trans entries) ?_ ?_ ?_ flushed, ?_⟩
  · rw [← (kept i hi').1, unused]
  · rw [← same n range, unset]
  · intro x hx
    have clear := fresh x hx
    have := (onMap x (valid.mem_sectors hx)).not
    rw [clear] at this
    simpa using this
  · intro j hj
    rw [inUse j, (kept j hj).1]
  · intro j hj
    rw [sector j, (kept j hj).2]
  · intro x hx
    rw [bits x, onMap x hx, List.mem_cons]
    tauto
  · apply filled.congr hi entries.symm
    · rw [entries]
      exact fun a ha => (table a ha).symm
    · rw [entries]
      exact flushed.table

/-- Everything that `Create` can do once the first lookup is done, for a size that a
header can hold. -/
theorem createNew_spec (inv : FsInvariant low s) (heap : Nat → Buf) {d : Directory} (name : Buf)
    {initialSize : Int} (small : -2147483648 ≤ initialSize) (fits : initialSize ≤ MaxFileSize)
    (entries : d.tableSize = NumDirEntries)
    (table : ∀ a < EntrySize * NumDirEntries, d.table a = s.directory.table a) :
    (s.Room name initialSize ∧ ∃ i n hdr s',
      s.createNew heap d name initialSize = .ok (true, s') ∧ s.Created i n hdr s' ∧
      hdr.numBytes = initialSize ∧ s.directory.Filled i name s'.directory) ∨
    ¬s.Room name initialSize ∧ s.createNew heap d name initialSize = .ok (false, s) := by
  obtain ⟨m, fetched, size, same⟩ := inv.system.fetchMap
  have clear : m.numClear = s.freeMap.numClear :=
    Bitmap.numClear_congr size same
  have holds : d.Holds name ↔ s.directory.Holds name := Directory.holds_congr entries table name
  have hasFree : d.HasFree ↔ s.directory.HasFree := Directory.hasFree_congr entries table
  unfold createNew
  rw [fetched, Exec.ok_bind]
  rcases m.findAndSet_cases with ⟨n, range, unset, found⟩ | ⟨full, found⟩
  · rw [found, Exec.ok_bind]
    have nonneg : (n : Int) ≠ -1 := by omega
    have counted := Bitmap.numClear_marked range unset
    rw [size] at range
    simp only [if_neg nonneg]
    have bound : (n : Int) ≤ 2147483647 := by
      unfold NumSectors at range
      omega
    rcases d.add_cases name (by omega) bound with
      ⟨i, d', added, new, hi, unused, entries', inUse, sector, filled⟩ | ⟨added, refused⟩
    · rw [added]
      simp only [Bool.true_eq_false, if_false]
      rcases FileHeader.allocate_spec ⟨heap 1⟩ (m.marked n) initialSize size small fits with
        ⟨few, hdr, allocated⟩ | ⟨enough, hdr, m', allocated, valid, length, size', fresh, bits, _⟩
      · rw [allocated, Exec.ok_bind]
        refine .inr ⟨fun room => ?_, by simp only [if_true]⟩
        have := room.data
        omega
      · rw [allocated, Exec.ok_bind]
        simp only [Bool.true_eq_false, if_false]
        obtain ⟨disk₁, disk₂, first, second, c, filled'⟩ := createNew_flush inv heap entries table
          same range unset hi unused entries' inUse sector filled valid size' fresh bits
        rw [FileHeader.writeBack, Disk.writeSector_valid range, Exec.ok_bind, first, Exec.ok_bind,
          second, Exec.ok_bind]
        refine .inl ⟨⟨?_, ?_, by omega, by omega⟩, i, n, hdr, _, rfl, c, length, filled'⟩
        · rw [← holds]
          exact new
        · rw [← hasFree]
          exact ⟨i, hi, unused⟩
    · rw [added]
      refine .inr ⟨fun room => ?_, by simp only [if_true]⟩
      rcases refused with known | none
      · exact room.fresh (holds.mp known)
      · exact none (hasFree.mpr room.entry)
  · rw [found, Exec.ok_bind]
    refine .inr ⟨fun room => ?_, by simp only [if_true]⟩
    have some_clear := room.header
    rw [← clear] at some_clear
    obtain ⟨x, range, unset⟩ := Bitmap.numClear_pos.mp some_clear
    rw [full x range] at unset
    cases unset

/-- A size that no header can hold is refused, or the run does not go on. -/
theorem createNew_large {heap : Nat → Buf} {d : Directory} {name : Buf} {initialSize : Int}
    {created : Bool} (large : initialSize ≤ 2147483647) (tooLong : MaxFileSize < initialSize)
    (run : s.createNew heap d name initialSize = .ok (created, s')) : s' = s := by
  unfold createNew at run
  obtain ⟨m, _, run⟩ := Exec.bind_eq_ok.mp run
  obtain ⟨⟨sector, m₁⟩, _, run⟩ := Exec.bind_eq_ok.mp run
  simp only at run
  split at run
  · cases run
    rfl
  · split at run
    · cases run
      rfl
    · obtain ⟨⟨allocated, r⟩, done, run⟩ := Exec.bind_eq_ok.mp run
      cases allocated with
      | true => exact absurd done (FileHeader.allocate_large _ large tooLong r)
      | false =>
        cases run
        rfl

theorem createNew_cases (inv : FsInvariant low s) {heap : Nat → Buf} {d : Directory} {name : Buf}
    {initialSize : Int} {created : Bool} (small : -2147483648 ≤ initialSize)
    (large : initialSize ≤ 2147483647) (entries : d.tableSize = NumDirEntries)
    (table : ∀ a < EntrySize * NumDirEntries, d.table a = s.directory.table a)
    (run : s.createNew heap d name initialSize = .ok (created, s')) :
    s' = s ∨ ∃ i n hdr, s.Created i n hdr s' ∧ hdr.numBytes = initialSize := by
  by_cases fits : initialSize ≤ MaxFileSize
  · rcases createNew_spec inv heap name small fits entries table with
      ⟨_, i, n, hdr, s₁, success, c, length, _⟩ | ⟨_, failure⟩
    · rw [success] at run
      cases run
      exact .inr ⟨i, n, hdr, c, length⟩
    · rw [failure] at run
      cases run
      exact .inl rfl
  · exact .inl (createNew_large large (by omega) run)

theorem create_cases (inv : FsInvariant low s) {heap : Nat → Buf} {name : Buf}
    {initialSize : Int} {created : Bool} (small : -2147483648 ≤ initialSize)
    (large : initialSize ≤ 2147483647)
    (run : s.create heap name initialSize = .ok (created, s')) :
    s' = s ∨ ∃ i n hdr, s.Created i n hdr s' ∧ hdr.numBytes = initialSize := by
  obtain ⟨d, fetched, entries, table⟩ := inv.system.fetchDirectory (heap 0)
  unfold create at run
  rw [fetched, Exec.ok_bind] at run
  split at run
  · cases run
    exact .inl rfl
  · exact createNew_cases inv small large entries table run

/-- An entry keeps its file as long as its sector number and its header are kept. -/
structure KeepsEntry (s s' : FileSystem) (j : Nat) : Prop where
  inUse : s'.directory.inUse j = s.directory.inUse j
  sector : s'.directory.sector j = s.directory.sector j
  header : s.directory.inUse j = true → s'.disk (s.fileSector j) = s.disk (s.fileSector j)

namespace KeepsEntry

variable {j : Nat}

theorem fileSector (kept : s.KeepsEntry s' j) : s'.fileSector j = s.fileSector j :=
  congrArg Int.toNat kept.sector

theorem fileHeader (kept : s.KeepsEntry s' j) (used : s.directory.inUse j = true) :
    s'.fileHeader j = s.fileHeader j := by
  unfold FileSystem.fileHeader FileSystem.header
  rw [kept.fileSector, kept.header used]

theorem owned {i : Fin NumDirEntries} (kept : s.KeepsEntry s' i) :
    s'.owned (.entry i) = s.owned (.entry i) := by
  by_cases used : s.directory.inUse i = true
  · rw [FsInvariant.owned_entry i used, FsInvariant.owned_entry i (kept.inUse.trans used),
      kept.fileSector, kept.fileHeader used]
  · have unused : ¬ s'.directory.inUse i = true := kept.inUse ▸ used
    exact (if_neg unused).trans (if_neg used).symm

end KeepsEntry

theorem SameFiles.owned (same : SameFiles s s') : s'.owned .system = s.owned .system := by
  have map : s'.mapHdr = s.mapHdr := congrArg OpenFile.hdr same.map
  have dir : s'.dirHdr = s.dirHdr := congrArg OpenFile.hdr same.dir
  unfold FileSystem.owned
  rw [map, dir]

/-- A handle stays sound while its entry is kept. -/
theorem Sound.keep {h : Handle} (sound : s.Sound h)
    (kept : h.removed = false → ∀ i < NumDirEntries, s.directory.inUse i = true →
      s.fileSector i = h.sector → s.KeepsEntry s' i) : s'.Sound h := by
  refine ⟨sound.valid, sound.positioned, fun live => ?_⟩
  obtain ⟨i, hi, used, sector, same⟩ := sound.live live
  have entry := kept live i hi used sector
  refine ⟨i, hi, entry.inUse.trans used, entry.fileSector.trans sector, ?_⟩
  rw [entry.fileHeader used]
  exact same

end FileSystem

namespace FsInvariant
open FileSystem

variable {low : Int} {s s' : FileSystem}

/-- The parts of the invariant that every call keeps in the same way. -/
theorem rebuild (inv : FsInvariant low s) (same : SameFiles s s')
    (zero : s'.disk FreeMapSector = s.disk FreeMapSector)
    (one : s'.disk DirectorySector = s.disk DirectorySector)
    (entries : ∀ j < NumDirEntries, s'.directory.inUse j = true → s.KeepsEntry s' j ∨
      Disk.ValidSector (s'.directory.sector j) ∧ (s'.fileHeader j).Valid ∧
        low ≤ (s'.fileHeader j).numBytes)
    (exact : Exact s'.Marked s'.owned)
    (handles : ∀ k h, s'.handles k = some h → s'.Sound h) : FsInvariant low s' where
  system := same.system inv.system
  mapOnDisk := by
    have hdr : s'.mapHdr = s.mapHdr := congrArg OpenFile.hdr same.map
    have := inv.mapOnDisk
    unfold header at this ⊢
    rw [zero, hdr]
    exact this
  dirOnDisk := by
    have hdr : s'.dirHdr = s.dirHdr := congrArg OpenFile.hdr same.dir
    have := inv.dirOnDisk
    unfold header at this ⊢
    rw [one, hdr]
    exact this
  files := by
    intro j hj used
    rcases entries j hj used with kept | new
    · have before := kept.inUse ▸ used
      rw [kept.sector, kept.fileHeader before]
      exact inv.files j hj before
    · exact new
  exact := exact
  handles := handles

end FsInvariant

namespace FileSystem

variable {low : Int} {s s' : FileSystem}

namespace Created

variable {i n : Nat} {hdr : FileHeader}

theorem ne_of_used (c : s.Created i n hdr s') {j : Nat} (used : s.directory.inUse j = true) :
    j ≠ i := by
  intro same
  rw [same, c.unused] at used
  cases used

/-- The sectors that a successful `Create` writes hold no other file header. -/
theorem keeps (c : s.Created i n hdr s') (inv : FsInvariant low s) {j : Nat}
    (hj : j < NumDirEntries) (other : j ≠ i) : s.KeepsEntry s' j := by
  refine ⟨?_, ?_, fun used => ?_⟩
  · rw [c.inUse j hj, if_neg other]
  · rw [c.sector j hj, if_neg other]
  · obtain ⟨_, _, offMap, offDir⟩ :=
      FsInvariant.not_mem_system (inv.fileSector_outside hj used)
    have apart : s.fileSector j ≠ n := by
      intro same
      exact inv.unmarked_not_owned c.unmarked _ (same ▸ FsInvariant.fileSector_mem hj used)
    exact c.frame _ apart offMap offDir

theorem fileSector_new (c : s.Created i n hdr s') : s'.fileSector i = n := by
  unfold fileSector
  rw [c.sector i c.range, if_pos rfl]
  rfl

theorem owned_new (c : s.Created i n hdr s') :
    s'.owned (.entry ⟨i, c.range⟩) = n :: hdr.sectors := by
  have used : s'.directory.inUse i = true := by
    rw [c.inUse i c.range, if_pos rfl]
  rw [FsInvariant.owned_entry ⟨i, c.range⟩ used]
  unfold fileHeader
  change s'.fileSector i :: (s'.header (s'.fileSector i)).sectors = _
  rw [c.fileSector_new, c.stored.sectors (c.stored.symm.valid c.valid).direct]

theorem exact (c : s.Created i n hdr s') (inv : FsInvariant low s) : Exact s'.Marked s'.owned := by
  apply inv.exact.assign (.entry ⟨i, c.range⟩) (l := n :: hdr.sectors)
  · exact if_neg (by simp only [c.unused]; decide)
  · rw [List.nodup_cons]
    exact ⟨fun member => (c.fresh n member).1 rfl, c.valid.distinct⟩
  · intro x hx marked
    have unmarked : s.freeMap.bit x = false := by
      rcases List.mem_cons.mp hx with rfl | hx
      · exact c.unmarked
      · exact (c.fresh x hx).2
    rw [marked.2] at unmarked
    cases unmarked
  · intro x
    have range : x ∈ n :: hdr.sectors → x < NumSectors := by
      intro hx
      rcases List.mem_cons.mp hx with rfl | hx
      · exact c.onDisk
      · exact c.valid.mem_sectors hx
    unfold Marked
    constructor
    · intro ⟨hx, marked⟩
      rcases (c.bits x hx).mp marked with new | old
      · exact .inl new
      · exact .inr ⟨hx, old⟩
    · intro h
      have hx : x < NumSectors := h.elim range And.left
      exact ⟨hx, (c.bits x hx).mpr (h.imp_right And.right)⟩
  · exact c.owned_new
  · intro o other
    cases o with
    | system => exact c.files.owned
    | entry j =>
      have apart : (j : Nat) ≠ i := fun same => other (congrArg Owner.entry (Fin.ext same))
      exact (c.keeps inv j.isLt apart).owned

theorem invariant (c : s.Created i n hdr s') (inv : FsInvariant low s)
    (size : low ≤ hdr.numBytes) : FsInvariant low s' := by
  obtain ⟨notMap, notDir, _, _⟩ :=
    FsInvariant.not_mem_system (inv.unmarked_not_owned c.unmarked .system)
  have parts := inv.system.parts
  apply inv.rebuild c.files
  · exact c.frame _ (Ne.symm notMap) parts.1 parts.2.1
  · exact c.frame _ (Ne.symm notDir) parts.2.2.1 parts.2.2.2.1
  · intro j hj used
    by_cases new : j = i
    · subst new
      right
      unfold fileHeader
      rw [c.fileSector_new, c.sector j hj, if_pos rfl, c.stored.numBytes]
      have onDisk := c.onDisk
      exact ⟨⟨by omega, by omega⟩, c.stored.symm.valid c.valid, size⟩
    · exact .inl (c.keeps inv hj new)
  · exact c.exact inv
  · intro k h open_
    rw [c.handles] at open_
    exact (inv.handles k h open_).keep fun _ j hj used _ => c.keeps inv hj (c.ne_of_used used)

end Created

/-- What a successful `Remove` does: entry `i` is cleared, its sectors are free. -/
structure Removed (s : FileSystem) (i : Nat) (s' : FileSystem) : Prop where
  files : SameFiles s s'
  handles : s'.handles = markRemoved s.handles (s.fileSector i)
  range : i < NumDirEntries
  used : s.directory.inUse i = true
  inUse : ∀ j < NumDirEntries,
    s'.directory.inUse j = if j = i then false else s.directory.inUse j
  sector : ∀ j < NumDirEntries, s'.directory.sector j = s.directory.sector j
  bits : ∀ x < NumSectors, s'.freeMap.bit x = true ↔
    s.freeMap.bit x = true ∧ x ∉ s.fileSector i :: (s.fileHeader i).sectors
  frame : ∀ x, x ∉ s.mapHdr.sectors → x ∉ s.dirHdr.sectors → s'.disk x = s.disk x

theorem removeFile_cases (inv : FsInvariant low s) {heap : Nat → Buf} {d : Directory} {name : Buf}
    {removed : Bool} {i : Nat} (entries : d.tableSize = NumDirEntries)
    (table : ∀ a < EntrySize * NumDirEntries, d.table a = s.directory.table a)
    (found : d.findIndex name = some i)
    (run : s.removeFile heap d name (d.sector i) = .ok (removed, s')) : s.Removed i s' := by
  obtain ⟨m, fetched, size, same⟩ := inv.system.fetchMap
  have kept : ∀ j < NumDirEntries, d.inUse j = s.directory.inUse j ∧
      d.sector j = s.directory.sector j := fun j hj =>
    ⟨Directory.inUse_congr table hj, Directory.sector_congr table hj⟩
  obtain ⟨hi, used⟩ := Directory.findIndex_some found
  rw [entries] at hi
  rw [(kept i hi).1] at used
  have valid := (inv.files i hi used).2.1
  obtain ⟨onDisk, number⟩ := inv.fileSector_lt hi used
  have marked : ∀ x ∈ s.owned (.entry ⟨i, hi⟩), s.freeMap.bit x = true := fun x hx =>
    ((inv.exact.marked_iff x).mpr ⟨_, hx⟩).2
  rw [FsInvariant.owned_entry ⟨i, hi⟩ used] at marked
  obtain ⟨m', cleared, size', bits⟩ := FileHeader.deallocate_spec valid size (by
    intro x hx
    rw [same x (valid.mem_sectors hx)]
    exact marked x (List.mem_cons_of_mem _ hx))
  obtain ⟨disk₁, disk₂, first, second, flushed⟩ := inv.system.flush_map_directory
    (d := d.setInUse i 0) (m := m'.cleared (s.fileSector i)) entries size' s.disk (heap 1) (heap 2)
  have removes : d.remove name = (true, d.setInUse i 0) := by
    unfold Directory.remove
    rw [found]
  have header : FileHeader.fetchFrom s.disk (s.fileSector i) = .ok (s.fileHeader i) := by
    unfold FileHeader.fetchFrom
    rw [Disk.readSector_valid onDisk]
    rfl
  unfold removeFile at run
  rw [(kept i hi).2, ← number, header, Exec.ok_bind, fetched, Exec.ok_bind, cleared, Exec.ok_bind,
    Bitmap.clear_inRange (by rw [size']; exact onDisk), Exec.ok_bind, removes] at run
  simp only [first, second, Exec.ok_bind] at run
  cases run
  have files : SameFiles s
      { s with disk := disk₂, handles := markRemoved s.handles (s.fileSector i) } :=
    ⟨rfl, rfl⟩
  constructor
  · exact files
  · rfl
  · exact hi
  · exact used
  · intro j hj
    rw [Int.toNat_natCast, (directory_of_table files flushed.table entries hj).1,
      Directory.setInUse_inUse, (kept j hj).1]
    rfl
  · intro j hj
    rw [Int.toNat_natCast, (directory_of_table files flushed.table entries hj).2,
      Directory.setInUse_sector, (kept j hj).2]
  · intro x hx
    rw [Int.toNat_natCast, freeMap_of_bytes files flushed.map hx, Bitmap.bit_cleared,
      Bool.and_eq_true, bits x, same x hx, List.mem_cons, not_or, Bool.not_eq_true',
      decide_eq_false_iff_not]
    exact and_left_comm
  · exact flushed.frame

theorem remove_cases (inv : FsInvariant low s) {heap : Nat → Buf} {name : Buf} {removed : Bool}
    (run : s.remove heap name = .ok (removed, s')) : s' = s ∨ ∃ i, s.Removed i s' := by
  obtain ⟨d, fetched, entries, table⟩ := inv.system.fetchDirectory (heap 0)
  unfold remove at run
  rw [fetched, Exec.ok_bind] at run
  split at run
  next =>
    cases run
    exact .inl rfl
  next present =>
    cases found : d.findIndex name with
    | none => exact absurd (by unfold Directory.find; rw [found]) present
    | some i =>
      have sector : d.find name = d.sector i := by
        unfold Directory.find
        rw [found]
      rw [sector] at run
      exact .inr ⟨i, removeFile_cases inv entries table found run⟩

namespace Removed

variable {i : Nat}

theorem keeps (r : s.Removed i s') (inv : FsInvariant low s) {j : Nat} (hj : j < NumDirEntries)
    (other : j ≠ i) : s.KeepsEntry s' j := by
  refine ⟨?_, r.sector j hj, fun used => ?_⟩
  · rw [r.inUse j hj, if_neg other]
  · obtain ⟨_, _, offMap, offDir⟩ :=
      FsInvariant.not_mem_system (inv.fileSector_outside hj used)
    exact r.frame _ offMap offDir

theorem exact (r : s.Removed i s') (inv : FsInvariant low s) : Exact s'.Marked s'.owned := by
  apply inv.exact.release (.entry ⟨i, r.range⟩)
  · intro x
    rw [FsInvariant.owned_entry ⟨i, r.range⟩ r.used]
    unfold Marked
    rw [and_assoc]
    exact and_congr_right (r.bits x)
  · have unused : s'.directory.inUse i = false := by
      rw [r.inUse i r.range, if_pos rfl]
    exact if_neg (by simp only [unused]; decide)
  · intro o other
    cases o with
    | system => exact r.files.owned
    | entry j =>
      have apart : (j : Nat) ≠ i := fun same => other (congrArg Owner.entry (Fin.ext same))
      exact (r.keeps inv j.isLt apart).owned

theorem invariant (r : s.Removed i s') (inv : FsInvariant low s) : FsInvariant low s' := by
  have parts := inv.system.parts
  apply inv.rebuild r.files
  · exact r.frame _ parts.1 parts.2.1
  · exact r.frame _ parts.2.2.1 parts.2.2.2.1
  · intro j hj used
    have other : j ≠ i := by
      intro same
      rw [r.inUse j hj, if_pos same] at used
      cases used
    exact .inl (r.keeps inv hj other)
  · exact r.exact inv
  · intro k h open_
    rw [r.handles] at open_
    obtain ⟨h₀, before, rfl⟩ := Option.map_eq_some_iff.mp open_
    have sound := inv.handles k h₀ before
    have before : s.Sound { h₀ with removed := h₀.removed || h₀.sector == s.fileSector i } :=
      ⟨sound.valid, sound.positioned, fun live => sound.live (Bool.or_eq_false_iff.mp live).1⟩
    apply before.keep
    intro live j hj used sector
    apply r.keeps inv hj
    -- a handle that is still live is not of the removed file
    intro same
    have apart := (Bool.or_eq_false_iff.mp live).2
    rw [← same, sector] at apart
    simp at apart

end Removed

/-- The state after `new OpenFile` for the file of entry `i`. -/
def withObject (s : FileSystem) (i : Nat) : FileSystem :=
  { s with
    handles := Function.update s.handles s.nextHandle
      (some ⟨⟨s.fileHeader i, 0⟩, s.fileSector i, false⟩)
    nextHandle := s.nextHandle + 1 }

theorem newHandle_eq (inv : FsInvariant low s) {i : Nat} (hi : i < NumDirEntries)
    (used : s.directory.inUse i = true) :
    s.newHandle (s.directory.sector i) = .ok (s.nextHandle, s.withObject i) := by
  obtain ⟨onDisk, number⟩ := inv.fileSector_lt hi used
  unfold newHandle OpenFile.new FileHeader.fetchFrom
  rw [← number, Disk.readSector_valid onDisk]
  rfl

end FileSystem

namespace FsInvariant
open FileSystem

variable {low : Int} {s s' : FileSystem}

/-- A call that leaves the disk alone only has to keep the handles sound. -/
theorem of_disk (inv : FsInvariant low s) (same : SameFiles s s') (disk : s'.disk = s.disk)
    (handles : ∀ k h, s'.handles k = some h → s.handles k = some h ∨ s.Sound h) :
    FsInvariant low s' := by
  have map : s'.mapHdr = s.mapHdr := congrArg OpenFile.hdr same.map
  have dir : s'.dirHdr = s.dirHdr := congrArg OpenFile.hdr same.dir
  have directory : s'.directory = s.directory := by
    unfold FileSystem.directory
    rw [dir, disk]
  have kept : ∀ j, s.KeepsEntry s' j := fun j =>
    ⟨by rw [directory], by rw [directory], fun _ => by rw [disk]⟩
  apply inv.rebuild same (by rw [disk]) (by rw [disk]) fun j _ _ => .inl (kept j)
  · apply inv.exact.congr
    · intro x
      unfold Marked freeMap
      rw [map, disk]
    · intro o
      cases o with
      | system => exact same.owned
      | entry j => exact (kept j).owned
  · intro k h open_
    have sound : s.Sound h := (handles k h open_).elim (inv.handles k h) id
    exact sound.keep fun _ j _ _ _ => kept j

/-- The object that `Open` makes for an entry of the directory. -/
theorem withObject (inv : FsInvariant low s) {i : Nat} (hi : i < NumDirEntries)
    (used : s.directory.inUse i = true) : FsInvariant low (s.withObject i) := by
  have new : s.Sound ⟨⟨s.fileHeader i, 0⟩, s.fileSector i, false⟩ :=
    ⟨(inv.files i hi used).2.1, ⟨Int.le_refl 0, show (0 : Int) ≤ 2147483647 by decide⟩,
      fun _ => ⟨i, hi, used, rfl, ⟨fun _ _ => rfl⟩⟩⟩
  have files : SameFiles s (s.withObject i) := ⟨rfl, rfl⟩
  apply inv.of_disk files rfl
  intro j h open_
  unfold FileSystem.withObject at open_
  by_cases last : j = s.nextHandle
  · rw [last] at open_
    simp only [Function.update_self, Option.some.injEq] at open_
    subst open_
    exact .inr new
  · simp only [Function.update_of_ne last] at open_
    exact .inl open_

theorem newHandle_invariant (inv : FsInvariant low s) {i k : Nat} (hi : i < NumDirEntries)
    (used : s.directory.inUse i = true)
    (run : s.newHandle (s.directory.sector i) = .ok (k, s')) : FsInvariant low s' := by
  rw [newHandle_eq inv hi used] at run
  cases run
  exact inv.withObject hi used

/-- A name that `Find` knows is the name of an entry. -/
theorem find_cases {d : Directory} (entries : d.tableSize = NumDirEntries)
    (table : ∀ a < EntrySize * NumDirEntries, d.table a = s.directory.table a) {name : Buf}
    (found : 0 ≤ d.find name) : ∃ i < NumDirEntries, s.directory.inUse i = true ∧
      d.find name = s.directory.sector i := by
  unfold Directory.find at found ⊢
  cases index : d.findIndex name with
  | none =>
    rw [index] at found
    cases (show ¬ (0 : Int) ≤ -1 by decide) found
  | some i =>
    obtain ⟨hi, used⟩ := Directory.findIndex_some index
    rw [entries] at hi
    rw [Directory.inUse_congr (d := s.directory) table hi] at used
    exact ⟨i, hi, used, Directory.sector_congr (d := s.directory) table hi⟩

theorem openName (inv : FsInvariant low s) {heap : Nat → Buf} {name : Buf} {k : Option Nat}
    (run : s.openName heap name = .ok (k, s')) : FsInvariant low s' := by
  obtain ⟨d, fetched, entries, table⟩ := inv.system.fetchDirectory (heap 0)
  unfold FileSystem.openName at run
  rw [fetched, Exec.ok_bind] at run
  split at run
  next found =>
    obtain ⟨i, hi, used, sector⟩ := find_cases entries table found
    obtain ⟨⟨j, s₁⟩, opened, run⟩ := Exec.bind_eq_ok.mp run
    rw [sector] at opened
    cases run
    exact inv.newHandle_invariant hi used opened
  next =>
    cases run
    exact inv

theorem openSlot (inv : FsInvariant low s) {heap : Nat → Buf} {name : Buf} {k : Option Nat}
    (run : s.openSlot heap name = .ok (k, s')) : FsInvariant low s' := by
  obtain ⟨d, fetched, entries, table⟩ := inv.system.fetchDirectory (heap 0)
  unfold FileSystem.openSlot at run
  split at run
  next => cases run
  next slot _ =>
    rw [fetched, Exec.ok_bind] at run
    split at run
    next found =>
      obtain ⟨i, hi, used, sector⟩ := find_cases entries table found
      obtain ⟨⟨j, s₁⟩, opened, run⟩ := Exec.bind_eq_ok.mp run
      rw [sector] at opened
      cases run
      have inv₁ := inv.newHandle_invariant hi used opened
      exact inv₁.of_disk ⟨rfl, rfl⟩ rfl fun _ _ => .inl
    next =>
      cases run
      exact inv

theorem create (inv : FsInvariant low s) {heap : Nat → Buf} {name : Buf} {initialSize : Int}
    {created : Bool} (size : low ≤ initialSize) (small : -2147483648 ≤ initialSize)
    (large : initialSize ≤ 2147483647)
    (run : s.create heap name initialSize = .ok (created, s')) : FsInvariant low s' := by
  rcases create_cases inv small large run with rfl | ⟨i, n, hdr, c, length⟩
  · exact inv
  · exact c.invariant inv (length ▸ size)

theorem remove (inv : FsInvariant low s) {heap : Nat → Buf} {name : Buf} {removed : Bool}
    (run : s.remove heap name = .ok (removed, s')) : FsInvariant low s' := by
  rcases remove_cases inv run with rfl | ⟨i, r⟩
  · exact inv
  · exact r.invariant inv

end FsInvariant

end NachOS.Filesys
