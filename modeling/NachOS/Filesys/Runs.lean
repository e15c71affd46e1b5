import NachOS.Filesys.Steps

/-!
# Runs of the disk file system

Writes go through the header that was cached when the file was opened. The
allocation invariant holds in every state of every run in which a write is made
through a handle of a file that still exists (or whose sectors are still free),
at a position that is not negative.
-/
namespace NachOS.Filesys
open NachOS.Lib NachOS.Library

namespace FileSystem

variable {low : Int} {s s' : FileSystem}

/-- The file has not been removed since the handle was opened, or none of its
sectors has been allocated again. -/
def Writable (s : FileSystem) (h : Handle) : Prop :=
  h.removed = false ∨ ∀ x ∈ h.file.hdr.sectors, s.freeMap.bit x = false

/-- What a write through a handle can do. -/
structure Written (s : FileSystem) (h : Handle) (s' : FileSystem) : Prop where
  files : SameFiles s s'
  frame : ∀ x, x ∉ h.file.hdr.sectors → s'.disk x = s.disk x
  handles : ∀ k h', s'.handles k = some h' → s.handles k = some h' ∨
    ∃ p, 0 ≤ p ∧ p ≤ 2147483647 ∧ h' = { h with file := { h.file with seekPosition := p } }

theorem writeAtHandle_cases {k : Nat} {heap data : Buf} {numBytes position : Int} {h : Handle}
    (sound : s.Sound h) (open_ : s.handles k = some h) (high : numBytes ≤ 2147483647)
    (nonneg : 0 < numBytes → 0 ≤ position)
    (run : s.writeAtHandle k heap data numBytes position = some s') : s.Written h s' := by
  unfold writeAtHandle at run
  simp only [open_] at run
  split at run
  next count disk' done =>
    cases run
    exact ⟨⟨rfl, rfl⟩, (OpenFile.writeAt_effect sound.valid high nonneg done).1, fun _ _ => .inl⟩
  next => cases run

theorem writeHandle_cases {k : Nat} {heap data : Buf} {numBytes : Int} {h : Handle}
    (sound : s.Sound h) (open_ : s.handles k = some h) (high : numBytes ≤ 2147483647)
    (run : s.writeHandle k heap data numBytes = some s') : s.Written h s' := by
  have length := sound.valid.length_le
  obtain ⟨nonneg, _⟩ := sound.positioned
  unfold writeHandle at run
  simp only [open_] at run
  split at run
  next count disk' file done =>
    cases run
    unfold OpenFile.write at done
    obtain ⟨⟨count, disk'⟩, write, done⟩ := Exec.bind_eq_ok.mp done
    cases done
    obtain ⟨frame, range⟩ := OpenFile.writeAt_effect sound.valid high (fun _ => nonneg) write
    refine ⟨⟨rfl, rfl⟩, frame, fun j h' after => ?_⟩
    by_cases this : j = k
    · rw [this] at after
      simp only [Function.update_self, Option.some.injEq] at after
      have fits : h.file.seekPosition + count ≤ 2147483647 := by
        unfold MaxFileSize NumDirect SectorSize at length
        omega
      right
      refine ⟨h.file.seekPosition + count, by omega, fits, ?_⟩
      rw [← after, int32_of_range (by omega) fits]
    · simp only [Function.update_of_ne this] at after
      exact .inl after
  next => cases run

/-- Whatever a write through the handle can touch belongs to its file, or to no
one. -/
theorem sectors_apart (inv : FsInvariant low s) {h : Handle} (sound : s.Sound h)
    (writable : s.Writable h) {x : Nat} (member : x ∈ h.file.hdr.sectors) {o : Owner}
    (owned : x ∈ s.owned o) : h.removed = false ∧ ∃ i, o = .entry i ∧
      s.directory.inUse i = true ∧ s.fileSector i = h.sector ∧ x ∈ (s.fileHeader i).sectors := by
  rcases writable with live | free
  · obtain ⟨i, hi, used, sector, same⟩ := sound.live live
    have direct := (inv.files i hi used).2.1.direct
    rw [← same.sectors direct] at member
    have mine : x ∈ s.owned (.entry ⟨i, hi⟩) := by
      rw [FsInvariant.owned_entry ⟨i, hi⟩ used]
      exact List.mem_cons_of_mem _ member
    exact ⟨live, ⟨i, hi⟩, inv.exact.disjoint _ _ _ owned mine, used, sector, member⟩
  · exact absurd owned (inv.unmarked_not_owned (free x member) o)

namespace Written

variable {h : Handle}

/-- The sectors of the system files are not written. -/
theorem system (w : s.Written h s') (inv : FsInvariant low s) (sound : s.Sound h)
    (writable : s.Writable h) {x : Nat} (member : x ∈ s.owned .system) : s'.disk x = s.disk x := by
  apply w.frame
  intro touched
  obtain ⟨_, i, other, _⟩ := sectors_apart inv sound writable touched member
  cases other

/-- No file header is written: it is not among the data sectors of its own file. -/
theorem header (w : s.Written h s') (inv : FsInvariant low s) (sound : s.Sound h)
    (writable : s.Writable h) {j : Nat} (hj : j < NumDirEntries)
    (used : s.directory.inUse j = true) : s'.disk (s.fileSector j) = s.disk (s.fileSector j) := by
  apply w.frame
  intro touched
  obtain ⟨_, i, same, _, _, data⟩ :=
    sectors_apart inv sound writable touched (FsInvariant.fileSector_mem hj used)
  cases same
  have nodup := inv.exact.nodup (.entry ⟨j, hj⟩)
  rw [FsInvariant.owned_entry ⟨j, hj⟩ used] at nodup
  exact (List.nodup_cons.mp nodup).1 data

theorem keeps (w : s.Written h s') (inv : FsInvariant low s) (sound : s.Sound h)
    (writable : s.Writable h) {j : Nat} (hj : j < NumDirEntries) : s.KeepsEntry s' j := by
  have sectors : ∀ x ∈ s.dirHdr.sectors, s'.disk x = s.disk x := fun x hx =>
    w.system inv sound writable (FsInvariant.dirSectors_mem hx)
  obtain ⟨inUse, sector⟩ := directory_of_sectors inv.system w.files sectors hj
  exact ⟨inUse, sector, w.header inv sound writable hj⟩

/-- The data sectors of every other file are not written. -/
theorem data (w : s.Written h s') (inv : FsInvariant low s) (sound : s.Sound h)
    (writable : s.Writable h) {j : Nat} (hj : j < NumDirEntries)
    (used : s.directory.inUse j = true) (other : ¬ (h.removed = false ∧ s.fileSector j = h.sector))
    {x : Nat} (member : x ∈ (s.fileHeader j).sectors) : s'.disk x = s.disk x := by
  apply w.frame
  intro touched
  have mine : x ∈ s.owned (.entry ⟨j, hj⟩) := by
    rw [FsInvariant.owned_entry ⟨j, hj⟩ used]
    exact List.mem_cons_of_mem _ member
  obtain ⟨live, i, same, _, sector, _⟩ := sectors_apart inv sound writable touched mine
  cases same
  exact other ⟨live, sector⟩

theorem invariant (w : s.Written h s') (inv : FsInvariant low s) (sound : s.Sound h)
    (writable : s.Writable h) : FsInvariant low s' := by
  have system := fun x (hx : x ∈ s.owned .system) => w.system inv sound writable hx
  have kept := fun j (hj : j < NumDirEntries) => w.keeps inv sound writable hj
  apply inv.rebuild w.files
  · exact system _ (FsInvariant.mem_system.mpr (.inl rfl))
  · exact system _ (FsInvariant.mem_system.mpr (.inr (.inl rfl)))
  · exact fun j hj _ => .inl (kept j hj)
  · apply inv.exact.congr
    · intro x
      unfold Marked
      refine and_congr_right fun hx => ?_
      rw [freeMap_of_sectors inv.system w.files _ hx]
      exact fun y hy => system y (FsInvariant.mem_system.mpr (.inr (.inr (.inl hy))))
    · intro o
      cases o with
      | system => exact w.files.owned
      | entry j => exact (kept j j.isLt).owned
  · intro k h' after
    have before : s.Sound h' := by
      rcases w.handles k h' after with before | ⟨p, low', high, rfl⟩
      · exact inv.handles k h' before
      · exact ⟨sound.valid, ⟨low', high⟩, sound.live⟩
    exact before.keep fun _ j hj _ _ => kept j hj

end Written

end FileSystem

/-- The handle through which an event writes. -/
def FsEvent.writesThrough : FsEvent → Option Nat
  | .writeAt k _ _ _ _ => some k
  | .write k _ _ _ => some k
  | _ => none

/-- What is asked of the events of a run: files have a size of at least `low` that
a header can hold, unless `Create` has no room and refuses; writes go through
writable handles and never start before the file. -/
def FsEvent.Careful (low : Int) : FsEvent → FileSystem → Prop
  | .create _ name initialSize, s =>
    low ≤ initialSize.toInt ∧ (initialSize.toInt ≤ MaxFileSize ∨ ¬ s.Room name initialSize.toInt)
  | .writeAt k _ _ numBytes position, s =>
    (∀ h, s.handles k = some h → s.Writable h) ∧ (0 < numBytes.toInt → 0 ≤ position.toInt)
  | .write k _ _ _, s => ∀ h, s.handles k = some h → s.Writable h
  | _, _ => True

namespace FileSystem

variable {low : Int} {s s' : FileSystem}

/-- A careful write does what `Written` says. -/
theorem next_written (inv : FsInvariant low s) {e : FsEvent} {k : Nat} {h : Handle}
    (writes : e.writesThrough = some k) (open_ : s.handles k = some h) (careful : e.Careful low s)
    (step : next e s = some s') : s.Written h s' ∧ s.Writable h := by
  have sound := inv.handles k h open_
  cases e with
  | writeAt j heap data numBytes position =>
    cases writes
    obtain ⟨writable, nonneg⟩ := careful
    exact ⟨writeAtHandle_cases sound open_ numBytes.range.2 nonneg step, writable h open_⟩
  | write j heap data numBytes =>
    cases writes
    exact ⟨writeHandle_cases sound open_ numBytes.range.2 step, careful h open_⟩
  | _ => cases writes

/-- Every careful step keeps the allocation invariant. -/
theorem next_invariant (inv : FsInvariant low s) {e : FsEvent} (careful : e.Careful low s)
    (step : next e s = some s') : FsInvariant low s' := by
  cases e with
  | create heap name initialSize =>
    obtain ⟨created, run⟩ := Exec.toOption_map_snd.mp step
    exact inv.create careful.1 initialSize.range.1 initialSize.range.2 run
  | remove heap name =>
    obtain ⟨removed, run⟩ := Exec.toOption_map_snd.mp step
    exact inv.remove run
  | openName heap name =>
    obtain ⟨k, run⟩ := Exec.toOption_map_snd.mp step
    exact inv.openName run
  | openSlot heap name =>
    obtain ⟨k, run⟩ := Exec.toOption_map_snd.mp step
    exact inv.openSlot run
  | writeAt k heap data numBytes position =>
    cases open_ : s.handles k with
    | none =>
      simp only [next, writeAtHandle, open_] at step
      cases step
    | some h =>
      obtain ⟨written, writable⟩ := next_written inv rfl open_ careful step
      exact written.invariant inv (inv.handles k h open_) writable
  | write k heap data numBytes =>
    cases open_ : s.handles k with
    | none =>
      simp only [next, writeHandle, open_] at step
      cases step
    | some h =>
      obtain ⟨written, writable⟩ := next_written inv rfl open_ careful step
      exact written.invariant inv (inv.handles k h open_) writable
  | close k =>
    simp only [next] at step
    split at step
    next =>
      have after : s' = { s with handles := Function.update s.handles k none } := by
        injection step with step
        exact step.symm
      have files : SameFiles s s' := by
        rw [after]
        exact ⟨rfl, rfl⟩
      apply inv.of_disk files (by rw [after])
      intro j h open_
      rw [after] at open_
      by_cases closed : j = k
      · rw [closed] at open_
        simp only [Function.update_self] at open_
        cases open_
      · simp only [Function.update_of_ne closed] at open_
        exact .inl open_
    next => cases step

/-- The headers and the free map that `FileSystem(TRUE)` computes. -/
structure Formatted (mapHdr dirHdr : FileHeader) (m : Bitmap) : Prop where
  map : mapHdr.Valid
  mapLength : mapHdr.numBytes = FreeMapFileSize
  dir : dirHdr.Valid
  dirLength : dirHdr.numBytes = DirectoryFileSize
  size : m.numBits = NumSectors
  nodup : (FreeMapSector :: DirectorySector :: (mapHdr.sectors ++ dirHdr.sectors)).Nodup
  bits : ∀ x, m.bit x = true ↔
    x ∈ FreeMapSector :: DirectorySector :: (mapHdr.sectors ++ dirHdr.sectors)

/-- The map after the sectors of the two headers are marked. -/
def reserved : Bitmap := ((Bitmap.new NumSectors).marked FreeMapSector).marked DirectorySector

theorem reserved_bit (x : Nat) :
    reserved.bit x = true ↔ x = FreeMapSector ∨ x = DirectorySector := by
  unfold reserved
  simp only [Bitmap.bit_marked, Bitmap.bit_new, Bool.or_false, Bool.or_eq_true, decide_eq_true_eq]
  exact or_comm

theorem reserved_numClear : reserved.numClear + 2 = NumSectors := by
  have first : ((Bitmap.new NumSectors).marked FreeMapSector).numClear + 1 = NumSectors := by
    rw [Bitmap.numClear_marked (by decide) (Bitmap.bit_new _ _), Bitmap.numClear_new]
  have clear : ((Bitmap.new NumSectors).marked FreeMapSector).bit DirectorySector = false := by
    rw [Bitmap.bit_marked, Bitmap.bit_new]
    decide
  have second := Bitmap.numClear_marked (by decide) clear
  unfold reserved
  omega

/-- Both allocations of `FileSystem(TRUE)` succeed. -/
theorem format_allocates (h h' : FileHeader) :
    ∃ mapHdr dirHdr m m',
      h.allocate reserved FreeMapFileSize = .ok (true, mapHdr, m) ∧
      h'.allocate m DirectoryFileSize = .ok (true, dirHdr, m') ∧
      Formatted mapHdr dirHdr m' := by
  have room := reserved_numClear
  have needed : divRoundUp FreeMapFileSize SectorSize = 1 := by decide
  have needed' : divRoundUp DirectoryFileSize SectorSize = 2 := by decide
  rcases h.allocate_spec reserved FreeMapFileSize rfl (by decide)
    (by decide) with ⟨full, _⟩ | ⟨_, mapHdr, m, run, map, mapLength, size, fresh, bits, counted⟩
  · rw [needed] at full
    unfold NumSectors at room
    omega
  have one : mapHdr.sectors.length = 1 := by
    have count := map.count
    rw [mapLength, needed] at count
    rw [FileHeader.sectors, count]
    rfl
  rcases h'.allocate_spec m DirectoryFileSize size (by decide)
    (by decide) with ⟨full, _⟩ | ⟨_, dirHdr, m', run', dir, dirLength, size', fresh', bits', _⟩
  · rw [needed'] at full
    unfold NumSectors at room
    omega
  refine ⟨mapHdr, dirHdr, m, m', run, run', map, mapLength, dir, dirLength, size', ?_, ?_⟩
  · have mapFresh : ∀ x ∈ mapHdr.sectors, ¬ (x = FreeMapSector ∨ x = DirectorySector) := by
      intro x hx
      rw [← reserved_bit, fresh x hx]
      decide
    have dirFresh : ∀ x ∈ dirHdr.sectors,
        ¬ (x ∈ mapHdr.sectors ∨ x = FreeMapSector ∨ x = DirectorySector) := by
      intro x hx
      rw [← reserved_bit, ← bits, fresh' x hx]
      decide
    rw [List.nodup_cons, List.nodup_cons, List.nodup_append, List.mem_cons, List.mem_append,
      List.mem_append]
    refine ⟨?_, ?_, map.distinct, dir.distinct, ?_⟩
    · rintro (same | inMap | inDir)
      · exact absurd same (by decide)
      · exact mapFresh _ inMap (.inl rfl)
      · exact dirFresh _ inDir (.inr (.inl rfl))
    · rintro (inMap | inDir)
      · exact mapFresh _ inMap (.inr rfl)
      · exact dirFresh _ inDir (.inr (.inr rfl))
    · rintro x inMap y inDir rfl
      exact dirFresh x inDir (.inl inMap)
  · intro x
    rw [bits', bits, reserved_bit, List.mem_cons, List.mem_cons, List.mem_append, or_left_comm,
      ← or_assoc, or_comm, or_assoc]

/-- The state of `FileSystem(TRUE)` once its two files are open. -/
def opened (disk : Disk) (mapHdr dirHdr : FileHeader) : FileSystem where
  disk := (disk.put FreeMapSector mapHdr.bytes).put DirectorySector dirHdr.bytes
  freeMapFile :=
    ⟨⟨(disk.put FreeMapSector mapHdr.bytes).put DirectorySector dirHdr.bytes FreeMapSector⟩, 0⟩
  directoryFile :=
    ⟨⟨(disk.put FreeMapSector mapHdr.bytes).put DirectorySector dirHdr.bytes DirectorySector⟩, 0⟩
  openf := fun _ => none
  handles := fun _ => none
  nextHandle := 0

theorem format_eq {disk : Disk} {heap : Nat → Buf} {mapHdr dirHdr : FileHeader} {m m' : Bitmap}
    (run : FileHeader.allocate ⟨heap 1⟩ reserved FreeMapFileSize = .ok (true, mapHdr, m))
    (run' : FileHeader.allocate ⟨heap 2⟩ m DirectoryFileSize = .ok (true, dirHdr, m')) :
    format disk heap = (do
      let s := opened disk mapHdr dirHdr
      let disk ← PersistentBitmap.writeBack m' s.disk s.freeMapFile (heap 3)
      let disk ← (Directory.new (heap 0) NumDirEntries).writeBack disk s.directoryFile (heap 4)
      .ok { s with disk }) := by
  have first : (Bitmap.new NumSectors).mark FreeMapSector =
      .ok ((Bitmap.new NumSectors).marked FreeMapSector) := Bitmap.mark_inRange (by decide)
  have second : ((Bitmap.new NumSectors).marked FreeMapSector).mark DirectorySector =
      .ok reserved := Bitmap.mark_inRange (by decide)
  have sectors : FreeMapSector < NumSectors ∧ DirectorySector < NumSectors := by decide
  unfold format
  simp only [first, second, Exec.ok_bind, run, run', check_true, FileHeader.writeBack, OpenFile.new,
    FileHeader.fetchFrom, Disk.writeSector_valid sectors.1, Disk.writeSector_valid sectors.2,
    Disk.readSector_valid sectors.1, Disk.readSector_valid sectors.2]
  rfl

theorem opened_headers (disk : Disk) (mapHdr dirHdr : FileHeader) :
    mapHdr.Same (opened disk mapHdr dirHdr).mapHdr ∧
      dirHdr.Same (opened disk mapHdr dirHdr).dirHdr := by
  have apart : FreeMapSector ≠ DirectorySector := by decide
  constructor
  · constructor
    intro k hk
    change _ = (disk.put FreeMapSector mapHdr.bytes).put DirectorySector dirHdr.bytes FreeMapSector k
    rw [Disk.put_other apart, Disk.put_self hk]
  · constructor
    intro k hk
    change _ = (disk.put FreeMapSector mapHdr.bytes).put DirectorySector dirHdr.bytes
      DirectorySector k
    rw [Disk.put_self hk]

namespace Formatted

variable {disk : Disk} {mapHdr dirHdr : FileHeader} {m : Bitmap}

theorem owned (f : Formatted mapHdr dirHdr m) (disk : Disk) :
    (opened disk mapHdr dirHdr).owned .system =
      FreeMapSector :: DirectorySector :: (mapHdr.sectors ++ dirHdr.sectors) := by
  obtain ⟨map, dir⟩ := opened_headers disk mapHdr dirHdr
  unfold FileSystem.owned
  rw [map.sectors f.map.direct, dir.sectors f.dir.direct]

theorem system (f : Formatted mapHdr dirHdr m) (disk : Disk) :
    (opened disk mapHdr dirHdr).SystemFiles := by
  obtain ⟨map, dir⟩ := opened_headers disk mapHdr dirHdr
  refine ⟨map.valid f.map, ?_, dir.valid f.dir, ?_, ?_⟩
  · rw [← map.numBytes, f.mapLength]
  · rw [← dir.numBytes, f.dirLength]
  · rw [f.owned disk]
    exact f.nodup

/-- The state when the empty directory and the map are on the disk. -/
theorem invariant (f : Formatted mapHdr dirHdr m) {heap : Buf} {disk disk' : Disk}
    (flushed : (opened disk mapHdr dirHdr).Flushed (Directory.new heap NumDirEntries) m
      (opened disk mapHdr dirHdr).disk disk') :
    FsInvariant low { opened disk mapHdr dirHdr with disk := disk' } := by
  have sys := f.system disk
  have parts := sys.parts
  have files : SameFiles (opened disk mapHdr dirHdr)
      { opened disk mapHdr dirHdr with disk := disk' } := ⟨rfl, rfl⟩
  have unused : ∀ j < NumDirEntries,
      ({ opened disk mapHdr dirHdr with disk := disk' } : FileSystem).directory.inUse j = false := by
    intro j hj
    rw [(directory_of_table files flushed.table rfl hj).1, Directory.new_inUse heap hj]
  constructor
  · exact files.system sys
  · constructor
    intro k _
    change disk' FreeMapSector k = _
    rw [flushed.frame _ parts.1 parts.2.1]
    rfl
  · constructor
    intro k _
    change disk' DirectorySector k = _
    rw [flushed.frame _ parts.2.2.1 parts.2.2.2.1]
    rfl
  · intro j hj used
    rw [unused j hj] at used
    cases used
  · apply Exact.empty.assign .system rfl f.nodup (fun _ _ => id)
    · intro x
      unfold Marked
      rw [or_false, ← f.bits x]
      constructor
      · intro ⟨hx, marked⟩
        rwa [freeMap_of_bytes files flushed.map hx] at marked
      · intro marked
        have hx : x < NumSectors := by
          have member := (f.bits x).mp marked
          simp only [List.mem_cons, List.mem_append] at member
          rcases member with rfl | rfl | inMap | inDir
          · decide
          · decide
          · exact f.map.mem_sectors inMap
          · exact f.dir.mem_sectors inDir
        exact ⟨hx, (freeMap_of_bytes files flushed.map hx).trans marked⟩
    · exact files.owned.trans (f.owned disk)
    · intro o other
      cases o with
      | system => exact absurd rfl other
      | entry j => exact if_neg (by rw [unused j j.isLt]; decide)
  · intro k h open_
    cases open_

end Formatted

theorem format_invariant {disk : Disk} {heap : Nat → Buf} (run : format disk heap = .ok s) :
    FsInvariant low s := by
  obtain ⟨mapHdr, dirHdr, m, m', first, second, formatted⟩ := format_allocates ⟨heap 1⟩ ⟨heap 2⟩
  have sys := formatted.system disk
  obtain ⟨disk₁, disk₂, writeMap, writeDirectory, flushed⟩ := sys.flush_map_directory
    (d := Directory.new (heap 0) NumDirEntries) rfl formatted.size
    (opened disk mapHdr dirHdr).disk (heap 3) (heap 4)
  rw [format_eq first second] at run
  simp only [writeMap, writeDirectory, Exec.ok_bind] at run
  cases run
  exact formatted.invariant flushed

/-- The state after `FileSystem(TRUE)`, with the two console files. -/
theorem new_invariant {disk : Disk} {heap : Nat → Nat → Buf} (size : low ≤ 0)
    (run : new disk heap = .ok s) : FsInvariant low s := by
  unfold new at run
  obtain ⟨s₀, formatted, run⟩ := Exec.bind_eq_ok.mp run
  obtain ⟨⟨input, s₁⟩, opened₁, run⟩ := Exec.bind_eq_ok.mp run
  obtain ⟨⟨output, s₂⟩, opened₂, run⟩ := Exec.bind_eq_ok.mp run
  obtain ⟨⟨created₁, s₃⟩, create₁, run⟩ := Exec.bind_eq_ok.mp run
  obtain ⟨⟨created₂, s₄⟩, create₂, run⟩ := Exec.bind_eq_ok.mp run
  cases run
  have inv₁ : FsInvariant low s₁ := (format_invariant formatted).openSlot opened₁
  have slot₁ : FsInvariant low { s₁ with openf := Function.update s₁.openf 0 input } :=
    inv₁.of_disk ⟨rfl, rfl⟩ rfl fun _ _ => .inl
  have inv₂ : FsInvariant low s₂ := slot₁.openSlot opened₂
  have slot₂ : FsInvariant low { s₂ with openf := Function.update s₂.openf 1 output } :=
    inv₂.of_disk ⟨rfl, rfl⟩ rfl fun _ _ => .inl
  have inv₃ : FsInvariant low s₃ := slot₂.create size (by decide) (by decide) create₁
  exact inv₃.create size (by decide) (by decide) create₂

end FileSystem

/-- The allocation invariant in every state of every careful run. -/
theorem fsInvariant_of_reachable {low : Int} (size : low ≤ 0) {s : FileSystem}
    (h : fsMachine.ReachableUnder (FsEvent.Careful low) s) : FsInvariant low s := by
  apply Machine.ReachableUnder.invariant _ _ h
  · intro s ⟨disk, heap, run⟩
    exact FileSystem.new_invariant size run
  · intro e s s' inv careful step
    exact FileSystem.next_invariant inv careful step

end NachOS.Filesys
