import NachOS.Filesys.FlatFile

/-!
# Entries of the header that are looked up (filesys/filehdr.cc:43-116, filesys/openfile.cc:123-191)

A header has `NumDirect` entries, and a file uses the first `numSectors` of them. Two checks
are to keep every access inside: `Allocate` compares the number of sectors with the number
of clear bits, and `ReadAt` and `WriteAt` compare the end of the request with the length of
the file. The first one says nothing about the size of the table, and sizes below 0 pass it.
In the second one the sum may overflow.
-/
namespace NachOS.Filesys
open NachOS.Lib NachOS.Library

namespace FileHeader

variable {h : FileHeader} {freeMap : Bitmap} {n : Nat} {fileSize : Int}

/-- With enough clear bits, the first `NumDirect` rounds of `Allocate` succeed, and they
leave the two counts at the start of the header alone. -/
theorem allocateSectors_runs (h : FileHeader) (freeMap : Bitmap) (n : Nat)
    (enough : n ≤ freeMap.numClear) (direct : n ≤ NumDirect) :
    ∃ h' freeMap', h.allocateSectors freeMap n = .ok (h', freeMap') ∧
      freeMap'.numClear + n = freeMap.numClear ∧ ∀ i < 8, h'.bytes i = h.bytes i := by
  induction n with
  | zero => exact ⟨h, freeMap, rfl, rfl, fun _ _ => rfl⟩
  | succ n ih =>
    obtain ⟨h', freeMap', run, clear, frame⟩ := ih (by omega) (by omega)
    rcases freeMap'.findAndSet_cases with ⟨i, range, unset, found⟩ | ⟨full, _⟩
    · have inside : n < NumDirect := by omega
      have nonneg : (0 : Int) ≤ i := by omega
      have counted := Bitmap.numClear_marked range unset
      refine ⟨⟨setInt h'.bytes (8 + 4 * n) i⟩, freeMap'.marked i, ?_, by omega, ?_⟩
      · simp only [allocateSectors, run, found, setDataSector, Exec.ok_bind, check_true inside,
          check_true nonneg]
      · intro j hj
        exact (setWord_outside (by omega)).trans (frame j hj)
    · obtain ⟨i, range, unset⟩ := Bitmap.numClear_pos.mp (by omega : 0 < freeMap'.numClear)
      rw [full i range] at unset
      cases unset

/-- The round after those writes behind the table. -/
theorem allocateSectors_outOfBounds (h : FileHeader) (enough : n ≤ freeMap.numClear)
    (beyond : NumDirect < n) : h.allocateSectors freeMap n = .error .outOfBounds := by
  induction n with
  | zero => omega
  | succ n ih =>
    rw [allocateSectors]
    by_cases last : n = NumDirect
    · obtain ⟨h', freeMap', run, _, _⟩ := h.allocateSectors_runs freeMap n (by omega) (by omega)
      have outside : ¬n < NumDirect := by omega
      rw [run, Exec.ok_bind]
      rcases freeMap'.findAndSet_cases with ⟨i, _, _, found⟩ | ⟨_, found⟩
      · simp only [found, setDataSector, check, if_neg outside, Exec.ok_bind, Exec.error_bind]
      · simp only [found, setDataSector, check, if_neg outside, Exec.ok_bind, Exec.error_bind]
    · rw [ih (by omega) (by omega)]
      rfl

/-- `Deallocate` finds nothing worse than a failing assertion in the bitmap, as long as the
number of sectors is within the table. -/
theorem deallocateSectors_fault {fault : Fault} (direct : n ≤ NumDirect)
    (run : h.deallocateSectors freeMap n = .error fault) : fault = .assertion := by
  induction n generalizing fault with
  | zero => cases run
  | succ n ih =>
    rw [deallocateSectors] at run
    cases before : h.deallocateSectors freeMap n with
    | error fault' =>
      rw [before] at run
      cases run
      exact ih (by omega) before
    | ok freeMap' =>
      rw [before, Exec.ok_bind, dataSectors_inside (by omega), Exec.ok_bind] at run
      generalize h.entry n = sector at run
      by_cases inRange : freeMap'.InRange sector
      · obtain ⟨i, rfl⟩ := Int.eq_ofNat_of_zero_le inRange.1
        have range : i < freeMap'.numBits := by
          have := inRange.2
          omega
        change (do
          let used ← freeMap'.test (i : Int)
          check (used = true) .assertion
          freeMap'.clear (i : Int)) = _ at run
        rw [Bitmap.test_inRange range, Exec.ok_bind, Bitmap.clear_inRange range] at run
        unfold check at run
        split at run
        · cases run
        · cases run
          rfl
      · unfold Bitmap.test check at run
        rw [if_neg inRange] at run
        cases run
        rfl

/-- What is asked of `Allocate` for a size: it stays inside the table, the header that it
makes has counts within the limits, and so does every later use of that header. -/
structure SizeSafe (h : FileHeader) (freeMap : Bitmap) (fileSize : Int) : Prop where
  allocates : h.allocate freeMap fileSize ≠ .error .outOfBounds
  counts : ∀ h' freeMap', h.allocate freeMap fileSize = .ok (true, h', freeMap') →
    0 ≤ h'.numBytes ∧ h'.numBytes ≤ MaxFileSize ∧ 0 ≤ h'.numSectors ∧ h'.numSectors ≤ NumDirect
  deallocates : ∀ h' freeMap', h.allocate freeMap fileSize = .ok (true, h', freeMap') →
    ∀ later, h'.deallocate later ≠ .error .outOfBounds
  lookups : ∀ h' freeMap', h.allocate freeMap fileSize = .ok (true, h', freeMap') →
    ∀ offset, 0 ≤ offset → offset < h'.numBytes →
      0 ≤ offset.tdiv SectorSize ∧ offset.tdiv SectorSize < NumDirect

/-- A size that is refused does no harm. -/
theorem sizeSafe_of_refused {h' : FileHeader}
    (refused : h.allocate freeMap fileSize = .ok (false, h', freeMap)) :
    h.SizeSafe freeMap fileSize := by
  constructor
  · rw [refused]
    intro fault
    cases fault
  all_goals
    intro h' freeMap' run
    rw [refused] at run
    cases run

theorem sizeSafe_of_fits (h : FileHeader) (freeMap : Bitmap) (nonneg : 0 ≤ fileSize)
    (fits : fileSize ≤ MaxFileSize) : h.SizeSafe freeMap fileSize := by
  have max : MaxFileSize = 3840 := rfl
  have direct : NumDirect = 30 := rfl
  have sectors : 0 ≤ divRoundUp fileSize SectorSize ∧
      divRoundUp fileSize SectorSize ≤ NumDirect := by
    rw [divRoundUp_nonneg nonneg]
    unfold SectorSize
    omega
  have counts := h.counted_counts fileSize (by omega) (by omega)
  have result := h.allocate_eq freeMap fileSize (by omega) (by omega)
  by_cases full : (freeMap.numClear : Int) < divRoundUp fileSize SectorSize
  · rw [if_pos full] at result
    exact sizeSafe_of_refused result
  · obtain ⟨hdr, m, run, _, frame⟩ := (h.counted fileSize).allocateSectors_runs freeMap
      (divRoundUp fileSize SectorSize).toNat (by omega) (by omega)
    rw [if_neg full, run] at result
    have bytes : hdr.numBytes = fileSize :=
      (int_congr fun i _ hi => frame i (by omega)).trans counts.1
    have number : hdr.numSectors = divRoundUp fileSize SectorSize :=
      (int_congr fun i _ hi => frame i (by omega)).trans counts.2
    constructor
    · rw [result]
      intro fault
      cases fault
    · intro h' freeMap' run
      rw [result] at run
      cases run
      omega
    · intro h' freeMap' run later fault
      rw [result] at run
      cases run
      cases deallocateSectors_fault (by omega) fault
    · intro h' freeMap' run offset low inside
      rw [result] at run
      cases run
      rw [Int.tdiv_eq_ediv_of_nonneg low]
      unfold SectorSize
      omega

/-- A negative size is accepted, whatever the free map is. -/
theorem allocate_negative (h : FileHeader) (freeMap : Bitmap) (low : -2147483648 ≤ fileSize)
    (negative : fileSize < 0) :
    h.allocate freeMap fileSize = .ok (true, h.counted fileSize, freeMap) ∧
      (h.counted fileSize).numBytes = fileSize := by
  have none : divRoundUp fileSize SectorSize ≤ 0 := by
    rw [divRoundUp_neg negative]
    unfold SectorSize
    omega
  have zero : (divRoundUp fileSize SectorSize).toNat = 0 := by omega
  refine ⟨?_, (h.counted_counts fileSize low (by omega)).1⟩
  rw [h.allocate_eq freeMap fileSize low (by omega), if_neg (by omega), zero]
  rfl

/-- For a large size with enough clear bits the table overflows. -/
theorem allocate_outOfBounds (h : FileHeader) (freeMap : Bitmap) (high : fileSize ≤ 2147483647)
    (large : MaxFileSize < fileSize)
    (enough : divRoundUp fileSize SectorSize ≤ freeMap.numClear) :
    h.allocate freeMap fileSize = .error .outOfBounds := by
  have beyond : NumDirect < divRoundUp fileSize SectorSize := by
    rw [divRoundUp_nonneg (by omega)]
    unfold MaxFileSize NumDirect SectorSize at *
    omega
  rw [h.allocate_eq freeMap fileSize (by omega) high, if_neg (by omega),
    allocateSectors_outOfBounds _ (by omega) (by omega)]
  rfl

end FileHeader

/-- For every size that is an `int` and every free map: all is well exactly when the size is
one that a header can hold, or when there are too few clear bits for it. -/
theorem allocate_safe_iff (h : FileHeader) (freeMap : Bitmap) (fileSize : Int)
    (low : -2147483648 ≤ fileSize) (high : fileSize ≤ 2147483647) :
    h.SizeSafe freeMap fileSize ↔
      0 ≤ fileSize ∧ fileSize ≤ MaxFileSize ∨
        (freeMap.numClear : Int) < divRoundUp fileSize SectorSize := by
  constructor
  · intro safe
    by_cases negative : fileSize < 0
    · obtain ⟨run, bytes⟩ := h.allocate_negative freeMap low negative
      have positive := (safe.counts _ _ run).1
      omega
    · by_cases fits : fileSize ≤ MaxFileSize
      · exact .inl ⟨by omega, fits⟩
      · right
        by_contra enough
        exact safe.allocates (h.allocate_outOfBounds freeMap high (by omega) (by omega))
  · rintro (⟨nonneg, fits⟩ | full)
    · exact h.sizeSafe_of_fits freeMap nonneg fits
    · have result := h.allocate_eq freeMap fileSize low high
      rw [if_pos full] at result
      exact FileHeader.sizeSafe_of_refused result

theorem allocate_safe_iff_full :
    FileHeader.SizeSafe ⟨fun _ => 0⟩ (Bitmap.new NumSectors) 3840 :=
  (allocate_safe_iff ⟨fun _ => 0⟩ (Bitmap.new NumSectors) 3840 (by decide) (by decide)).mpr
    (.inl ⟨by decide, by decide⟩)

/-- A file of one byte more than a header can hold, on an empty disk, and a file of -1 bytes. -/
theorem allocate_unsafe :
    FileHeader.allocate ⟨fun _ => 0⟩ (Bitmap.new NumSectors) 3841 = .error .outOfBounds ∧
    ¬FileHeader.SizeSafe ⟨fun _ => 0⟩ (Bitmap.new NumSectors) 3841 ∧
    ¬FileHeader.SizeSafe ⟨fun _ => 0⟩ (Bitmap.new NumSectors) (-1) := by
  have overflow : FileHeader.allocate ⟨fun _ => 0⟩ (Bitmap.new NumSectors) 3841 =
      .error .outOfBounds := by
    apply FileHeader.allocate_outOfBounds
    · decide
    · decide
    · rw [Bitmap.numClear_new]
      decide
  refine ⟨overflow, fun safe => safe.allocates overflow, fun safe => ?_⟩
  obtain ⟨run, bytes⟩ := FileHeader.allocate_negative ⟨fun _ => 0⟩ (Bitmap.new NumSectors)
    (by decide : -2147483648 ≤ (-1 : Int)) (by decide)
  have positive := (safe.counts _ _ run).1
  omega

namespace OpenFile

section Lookups

/-- The entries that the loop of `ReadAt` or `WriteAt` looks up for `n` sectors. -/
def lookups (firstSector : Int) (n : Nat) : List Int :=
  (List.range n).map fun k : Nat => ((firstSector + k) * SectorSize).tdiv SectorSize

/-- The entries that `ReadAt` looks up. -/
def readIndices (hdr : FileHeader) (numBytes position : Int) : List Int :=
  if numBytes ≤ 0 ∨ position ≥ hdr.fileLength then []
  else
    let numBytes := clip hdr.fileLength numBytes position
    let first := firstSector position
    let last := lastSector numBytes position
    lookups first (1 + last - first).toNat

def edgeIndices (hdr : FileHeader) (sector : Int) (partially : Bool) : List Int :=
  if partially then readIndices hdr SectorSize (sector * SectorSize) else []

/-- The entries that `WriteAt` looks up: for the sectors that it reads first, and for all
that it writes. -/
def writeIndices (hdr : FileHeader) (numBytes position : Int) : List Int :=
  if numBytes ≤ 0 ∨ position ≥ hdr.fileLength then []
  else
    let numBytes := clip hdr.fileLength numBytes position
    let first := firstSector position
    let last := lastSector numBytes position
    let firstAligned := decide (position = first * SectorSize)
    let lastAligned := decide (int32 (position + numBytes) = (last + 1) * SectorSize)
    edgeIndices hdr first (!firstAligned) ++
      edgeIndices hdr last (!lastAligned && (decide (first ≠ last) || firstAligned)) ++
      lookups first (1 + last - first).toNat

variable {disk : Disk} {h h' : FileHeader} {first numBytes position : Int} {n : Nat}

theorem lookups_succ (first : Int) (n : Nat) :
    lookups first (n + 1) = lookups first n ++ [((first + n) * SectorSize).tdiv SectorSize] := by
  unfold lookups
  rw [List.range_succ, List.map_append]
  rfl

/-- The loops look at no other entry. -/
theorem readSectors_congr (same : ∀ i ∈ lookups first n, h'.dataSectors i = h.dataSectors i) :
    readSectors disk h' first n = readSectors disk h first n := by
  induction n with
  | zero => rfl
  | succ n ih =>
    rw [lookups_succ] at same
    have earlier := ih fun i hi => same i (List.mem_append_left _ hi)
    have last := same _ (List.mem_append_right _ List.mem_cons_self)
    unfold readSectors FileHeader.byteToSector
    rw [earlier, last]

theorem writeSectors_congr (disk : Disk) (buf : Buf)
    (same : ∀ i ∈ lookups first n, h'.dataSectors i = h.dataSectors i) :
    writeSectors disk h' first buf n = writeSectors disk h first buf n := by
  induction n with
  | zero => rfl
  | succ n ih =>
    rw [lookups_succ] at same
    have earlier := ih fun i hi => same i (List.mem_append_left _ hi)
    have last := same _ (List.mem_append_right _ List.mem_cons_self)
    unfold writeSectors FileHeader.byteToSector
    rw [earlier, last]

theorem readAt_congr (length : h'.fileLength = h.fileLength)
    (same : ∀ i ∈ readIndices h numBytes position, h'.dataSectors i = h.dataSectors i) :
    readAt disk h' numBytes position = readAt disk h numBytes position := by
  unfold readAt
  rw [length]
  unfold readIndices at same
  split
  · rfl
  · rename_i proceeds
    rw [if_neg proceeds] at same
    dsimp only
    rw [readSectors_congr same]

theorem readEdge_congr (disk : Disk) (buf : Buf) (start : Nat) {sector : Int} {partially : Bool}
    (length : h'.fileLength = h.fileLength)
    (same : ∀ i ∈ edgeIndices h sector partially, h'.dataSectors i = h.dataSectors i) :
    readEdge disk h' buf start sector partially = readEdge disk h buf start sector partially := by
  unfold readEdge readInto
  split
  · rename_i reads
    unfold edgeIndices at same
    rw [if_pos reads] at same
    rw [readAt_congr length same]
  · rfl

theorem writeAt_congr {heap data : Buf} (length : h'.fileLength = h.fileLength)
    (same : ∀ i ∈ writeIndices h numBytes position, h'.dataSectors i = h.dataSectors i) :
    writeAt disk h' heap data numBytes position = writeAt disk h heap data numBytes position := by
  unfold writeAt readEdges
  rw [length]
  unfold writeIndices at same
  split
  · rfl
  · rename_i proceeds
    rw [if_neg proceeds] at same
    dsimp only at same ⊢
    have firstEdge (buf : Buf) (start : Nat) := readEdge_congr disk buf start length fun i hi =>
      same i (List.mem_append_left _ (List.mem_append_left _ hi))
    have lastEdge (buf : Buf) (start : Nat) := readEdge_congr disk buf start length fun i hi =>
      same i (List.mem_append_left _ (List.mem_append_right _ hi))
    have sectors (buf : Buf) := writeSectors_congr disk buf fun i hi =>
      same i (List.mem_append_right _ hi)
    simp only [firstEdge, lastEdge, sectors]

/-- What is looked up for sectors inside the file. -/
theorem mem_lookups {first n : Nat} {i : Int} (member : i ∈ lookups first n)
    (inside : ((first + n : Nat) : Int) ≤ h.numSectors) : 0 ≤ i ∧ i < h.numSectors := by
  obtain ⟨k, hk, rfl⟩ := List.mem_map.mp member
  have less := List.mem_range.mp hk
  have index : (((first : Int) + k) * SectorSize).tdiv SectorSize = first + k :=
    Int.mul_tdiv_cancel _ (by decide)
  rw [index]
  omega

theorem Request.lookups {p n : Nat} (v : h.Valid) (r : Request h numBytes p n) {i : Int}
    (member : i ∈ readIndices h numBytes p) : 0 ≤ i ∧ i < h.numSectors := by
  obtain ⟨ordered, direct⟩ := r.sectors v
  unfold readIndices at member
  rw [if_neg r.proceeds] at member
  simp only [r.clip, r.first, r.last] at member
  generalize hf : p / SectorSize = first at ordered member
  generalize hl : (p + n - 1) / SectorSize = last at ordered direct member
  have count : (1 + (last : Int) - first).toNat = last - first + 1 := by omega
  rw [count] at member
  exact mem_lookups member (by omega)

/-- The sector that `WriteAt` reads before it changes a part of it. -/
theorem mem_edgeIndices (v : h.Valid) {k : Nat} {partially : Bool} {i : Int}
    (inside : ((k * SectorSize : Nat) : Int) < h.numBytes)
    (member : i ∈ edgeIndices h k partially) : 0 ≤ i ∧ i < h.numSectors := by
  have length := v.length_le
  have r := Request.of_bounds v (by decide : (0 : Int) < SectorSize) inside
    (by unfold MaxFileSize NumDirect SectorSize at *; omega)
  unfold edgeIndices at member
  split at member
  · rw [← Nat.cast_mul] at member
    exact r.lookups v member
  · cases member

theorem Request.writeLookups {p n : Nat} (v : h.Valid) (r : Request h numBytes p n) {i : Int}
    (member : i ∈ writeIndices h numBytes p) : 0 ≤ i ∧ i < h.numSectors := by
  obtain ⟨ordered, direct⟩ := r.sectors v
  have positive := r.positive
  have inside := r.inside
  unfold writeIndices at member
  rw [if_neg r.proceeds] at member
  simp only [r.clip, r.first, r.last] at member
  generalize hf : p / SectorSize = first at ordered member
  generalize hl : (p + n - 1) / SectorSize = last at ordered direct member
  have firstInside : ((first * SectorSize : Nat) : Int) < h.numBytes := by
    unfold SectorSize at *
    omega
  have lastInside : ((last * SectorSize : Nat) : Int) < h.numBytes := by
    unfold SectorSize at *
    omega
  have count : (1 + (last : Int) - first).toNat = last - first + 1 := by omega
  rw [count] at member
  rcases List.mem_append.mp member with edge | whole
  · rcases List.mem_append.mp edge with edge | edge
    · exact mem_edgeIndices v firstInside edge
    · exact mem_edgeIndices v lastInside edge
  · exact mem_lookups whole (by omega)

end Lookups

/-- What is asked of `ReadAt` and `WriteAt` for a request: the count that they return is
clipped at the end of the file, and they look at entries of the header that are in use only. -/
structure Clipped (disk : Disk) (h : FileHeader) (heap data : Buf) (numBytes position : Int) :
    Prop where
  reads : ∃ bytes, readAt disk h numBytes position =
    .ok (min numBytes (h.fileLength - position), bytes)
  writes : ∃ disk', writeAt disk h heap data numBytes position =
    .ok (min numBytes (h.fileLength - position), disk')
  lookups : ∀ i ∈ readIndices h numBytes position ++ writeIndices h numBytes position,
    0 ≤ i ∧ i < h.numSectors
  /-- A header that differs behind the entries in use gives the same results. -/
  only : ∀ h', h'.fileLength = h.fileLength →
    (∀ k : Nat, (k : Int) < h.numSectors → h'.dataSectors k = h.dataSectors k) →
    readAt disk h' numBytes position = readAt disk h numBytes position ∧
      writeAt disk h' heap data numBytes position = writeAt disk h heap data numBytes position

end OpenFile

/-- For every header of the file system, every count that is a positive `int` and every
position inside the file: the request is clipped exactly when its end does not overflow. -/
theorem request_clipped_iff (disk : Disk) (h : FileHeader) (v : h.Valid) (heap data : Buf)
    (numBytes position : Int) (positive : 0 < numBytes) (high : numBytes ≤ 2147483647)
    (nonneg : 0 ≤ position) (inside : position < h.fileLength) :
    OpenFile.Clipped disk h heap data numBytes position ↔ position + numBytes ≤ 2147483647 := by
  obtain ⟨p, rfl⟩ := Int.eq_ofNat_of_zero_le nonneg
  change (p : Int) < h.numBytes at inside
  constructor
  · intro clipped
    by_contra overflow
    obtain ⟨bytes, run⟩ := clipped.reads
    exact OpenFile.readAt_overflow v inside high (by omega) run
  · intro fits
    have r := OpenFile.Request.of_bounds v positive inside fits
    have count : ((min numBytes (h.numBytes - p)).toNat : Int) = min numBytes (h.numBytes - p) := by
      omega
    have indices : ∀ i ∈ OpenFile.readIndices h numBytes p ++ OpenFile.writeIndices h numBytes p,
        0 ≤ i ∧ i < h.numSectors := by
      intro i member
      rcases List.mem_append.mp member with member | member
      · exact r.lookups v member
      · exact r.writeLookups v member
    constructor
    · obtain ⟨bytes, run, _⟩ := OpenFile.readAt_request disk v r
      rw [count] at run
      exact ⟨bytes, run⟩
    · obtain ⟨disk', run, _⟩ := OpenFile.writeAt_request disk v r heap data
      rw [count] at run
      exact ⟨disk', run⟩
    · exact indices
    · intro h' length same
      have entries : ∀ i ∈ OpenFile.readIndices h numBytes p ++ OpenFile.writeIndices h numBytes p,
          h'.dataSectors i = h.dataSectors i := by
        intro i member
        obtain ⟨low, below⟩ := indices i member
        obtain ⟨k, rfl⟩ := Int.eq_ofNat_of_zero_le low
        exact same k below
      exact ⟨OpenFile.readAt_congr length fun i hi => entries i (List.mem_append_left _ hi),
        OpenFile.writeAt_congr length fun i hi => entries i (List.mem_append_right _ hi)⟩

theorem request_clipped_iff_end :
    OpenFile.Clipped (fun _ _ => 7) OpenFile.twoSectors (fun _ => 0) (fun _ => 1) 1000 150 :=
  (request_clipped_iff (fun _ _ => 7) OpenFile.twoSectors OpenFile.twoSectors_valid (fun _ => 0)
    (fun _ => 1) 1000 150 (by decide) (by decide) (by decide) (by decide +kernel)).mpr (by decide)

/-- A request for `2 ^ 31 - 1` bytes at position 100 of a file of 200 bytes: the buffer has a
negative size. -/
theorem request_not_clipped :
    OpenFile.readAt (fun _ _ => 7) OpenFile.twoSectors 2147483647 100 = .error .badAlloc ∧
    ¬OpenFile.Clipped (fun _ _ => 7) OpenFile.twoSectors (fun _ => 0) (fun _ => 1)
      2147483647 100 := by
  have length : OpenFile.twoSectors.fileLength = 200 := by decide +kernel
  have fails : OpenFile.readAt (fun _ _ => 7) OpenFile.twoSectors 2147483647 100 =
      .error .badAlloc := by
    unfold OpenFile.readAt
    rw [length]
    rfl
  refine ⟨fails, ?_⟩
  intro clipped
  obtain ⟨bytes, run⟩ := clipped.reads
  rw [fails] at run
  cases run

end NachOS.Filesys
