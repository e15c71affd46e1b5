import NachOS.Filesys.FileHeader

/-!
# Open files on the disk (filesys/openfile.cc:29-202)

`ReadAt` and `WriteAt` go through whole sectors: they compute the first and last
sector of the request, read what is needed into a buffer of that many sectors and
copy the requested part out of it or into it. `WriteAt` first reads the sectors
that it only partly overwrites; the bytes of its buffer behind the end of the
file keep what `new char[]` left there, so the fresh buffer is an argument.

`int` arithmetic that can leave the 32-bit range for a request is wrapped with
`int32`. A pointer outside the buffer and a negative allocation are faults.
-/
namespace NachOS.Filesys
open NachOS.Lib NachOS.Library

namespace OpenFile

/-- The number of bytes to transfer, after the check of the request. -/
def clip (fileLength numBytes position : Int) : Int :=
  if int32 (position + numBytes) > fileLength then int32 (fileLength - position) else numBytes

def firstSector (position : Int) : Int := divRoundDown position SectorSize

def lastSector (numBytes position : Int) : Int :=
  divRoundDown (int32 (position + numBytes - 1)) SectorSize

/-- `new char[numSectors * SectorSize]` and the copy to or from it at
`position - (firstSector * SectorSize)` stay inside the buffer. -/
def checkBuffer (numSectors offset numBytes : Int) : Exec Unit := do
  check (0 ≤ int32 (numSectors * SectorSize)) .badAlloc
  check (0 ≤ offset ∧ offset + numBytes ≤ numSectors * SectorSize) .outOfBounds

/-- The loop of `ReadAt`, for the first `n` sectors from `firstSector` on. -/
def readSectors (disk : Disk) (hdr : FileHeader) (firstSector : Int) : Nat → Exec Buf
  | 0 => .ok fun _ => 0
  | n + 1 => do
    let buf ← readSectors disk hdr firstSector n
    let sector ← hdr.byteToSector ((firstSector + n) * SectorSize)
    let data ← disk.readSector sector
    .ok (blit buf (n * SectorSize) data SectorSize)

/-- The loop of `WriteAt`, for the first `n` sectors from `firstSector` on. -/
def writeSectors (disk : Disk) (hdr : FileHeader) (firstSector : Int) (buf : Buf) :
    Nat → Exec Disk
  | 0 => .ok disk
  | n + 1 => do
    let disk ← writeSectors disk hdr firstSector buf n
    let sector ← hdr.byteToSector ((firstSector + n) * SectorSize)
    disk.writeSector sector (fun j => buf (n * SectorSize + j))

/-- `OpenFile::ReadAt`: the count it returns and the bytes it copies out. -/
def readAt (disk : Disk) (hdr : FileHeader) (numBytes position : Int) : Exec (Int × Buf) :=
  if numBytes ≤ 0 ∨ position ≥ hdr.fileLength then .ok (0, fun _ => 0)
  else
    let numBytes := clip hdr.fileLength numBytes position
    let first := firstSector position
    let last := lastSector numBytes position
    let numSectors := 1 + last - first
    let offset := position - first * SectorSize
    do
      checkBuffer numSectors offset numBytes
      let buf ← readSectors disk hdr first numSectors.toNat
      .ok (numBytes, fun j => buf (offset.toNat + j))

/-- `ReadAt` with a pointer into a buffer: what it leaves there. -/
def readInto (disk : Disk) (hdr : FileHeader) (buf : Buf) (start : Nat) (numBytes position : Int) :
    Exec Buf := do
  let (count, data) ← readAt disk hdr numBytes position
  .ok (blit buf start data count.toNat)

def readEdge (disk : Disk) (hdr : FileHeader) (buf : Buf) (start : Nat) (sector : Int)
    (partially : Bool) : Exec Buf :=
  if partially then readInto disk hdr buf start SectorSize (sector * SectorSize) else .ok buf

/-- The part of `WriteAt` that reads in the first and the last sector, if they are
to be partially modified. -/
def readEdges (disk : Disk) (hdr : FileHeader) (heap : Buf) (first last : Int)
    (firstAligned lastAligned : Bool) : Exec Buf := do
  let buf ← readEdge disk hdr heap 0 first (!firstAligned)
  readEdge disk hdr buf ((last - first) * SectorSize).toNat last
    (!lastAligned && (decide (first ≠ last) || firstAligned))

/-- `OpenFile::WriteAt`: the count it returns and the disk; `heap` is the fresh
buffer and `data` what the caller's pointer gives. -/
def writeAt (disk : Disk) (hdr : FileHeader) (heap : Buf) (data : Buf) (numBytes position : Int) :
    Exec (Int × Disk) :=
  if numBytes ≤ 0 ∨ position ≥ hdr.fileLength then .ok (0, disk)
  else
    let numBytes := clip hdr.fileLength numBytes position
    let first := firstSector position
    let last := lastSector numBytes position
    let numSectors := 1 + last - first
    let offset := position - first * SectorSize
    let firstAligned := decide (position = first * SectorSize)
    let lastAligned := decide (int32 (position + numBytes) = (last + 1) * SectorSize)
    do
      checkBuffer numSectors offset numBytes
      let buf ← readEdges disk hdr heap first last firstAligned lastAligned
      let disk ← writeSectors disk hdr first (blit buf offset.toNat data numBytes.toNat)
        numSectors.toNat
      .ok (numBytes, disk)

end OpenFile

/-- An open file: the header in memory and the implicit position. -/
structure OpenFile where
  hdr : FileHeader
  seekPosition : Int

namespace OpenFile

/-- The constructor, for the header at `sector`. -/
def new (disk : Disk) (sector : Int) : Exec OpenFile := do
  let hdr ← FileHeader.fetchFrom disk sector
  .ok ⟨hdr, 0⟩

def seek (f : OpenFile) (position : Int) : OpenFile := { f with seekPosition := position }

def read (f : OpenFile) (disk : Disk) (numBytes : Int) : Exec (Int × Buf × OpenFile) := do
  let (result, data) ← readAt disk f.hdr numBytes f.seekPosition
  .ok (result, data, { f with seekPosition := int32 (f.seekPosition + result) })

def write (f : OpenFile) (disk : Disk) (heap data : Buf) (numBytes : Int) :
    Exec (Int × Disk × OpenFile) := do
  let (result, disk) ← writeAt disk f.hdr heap data numBytes f.seekPosition
  .ok (result, disk, { f with seekPosition := int32 (f.seekPosition + result) })

def length (f : OpenFile) : Int := f.hdr.fileLength

def getCurrentPos (f : OpenFile) : Int := f.seekPosition

end OpenFile

namespace FileHeader

/-- The byte `i` of the file, wherever it is on the disk. -/
def byteAt (h : FileHeader) (disk : Disk) (i : Nat) : Byte :=
  disk (h.sectorAt (i / SectorSize)) (i % SectorSize)

variable {h : FileHeader}

theorem Valid.length_le (v : h.Valid) : h.numBytes ≤ MaxFileSize := by
  have count := v.count
  have direct := v.direct
  by_cases nonneg : 0 ≤ h.numBytes
  · rw [divRoundUp_nonneg nonneg] at count
    unfold MaxFileSize NumDirect SectorSize at *
    omega
  · omega

theorem Valid.sector_of_byte (v : h.Valid) {i : Nat} (hi : (i : Int) < h.numBytes) :
    ((i / SectorSize : Nat) : Int) < h.numSectors := by
  have count := v.count
  rw [divRoundUp_nonneg (by omega)] at count
  unfold SectorSize at *
  omega

end FileHeader

namespace OpenFile

variable {disk : Disk} {h : FileHeader}

theorem readSectors_spec (disk : Disk) (v : h.Valid) (first n : Nat)
    (inside : ((first + n : Nat) : Int) ≤ h.numSectors) :
    ∃ buf, readSectors disk h first n = .ok buf ∧
      ∀ i, i < n * SectorSize → buf i = h.byteAt disk (first * SectorSize + i) := by
  induction n with
  | zero => exact ⟨_, rfl, fun i hi => by omega⟩
  | succ n ih =>
    obtain ⟨buf, run, bytes⟩ := ih (by omega)
    have hk : ((first + n : Nat) : Int) < h.numSectors := by omega
    have sector := v.byteToSector hk
    rw [Nat.cast_add] at sector
    refine ⟨blit buf (n * SectorSize) (disk (h.sectorAt (first + n))) SectorSize, ?_, fun i hi => ?_⟩
    · simp only [readSectors, run, Exec.ok_bind, sector, Disk.readSector_valid (v.sectorAt_lt hk)]
    · by_cases low : i < n * SectorSize
      · rw [blit_outside (.inl low)]
        exact bytes i low
      · have place : (first * SectorSize + i) / SectorSize = first + n ∧
            (first * SectorSize + i) % SectorSize = i - n * SectorSize := by
          unfold SectorSize at *
          omega
        rw [blit_inside (by omega) (by unfold SectorSize at *; omega)]
        unfold FileHeader.byteAt
        rw [place.1, place.2]

theorem writeSectors_spec (disk : Disk) (v : h.Valid) (first n : Nat) (buf : Buf)
    (inside : ((first + n : Nat) : Int) ≤ h.numSectors) :
    ∃ disk', writeSectors disk h first buf n = .ok disk' ∧
      (∀ s, (∀ k, k < n → s ≠ h.sectorAt (first + k)) → disk' s = disk s) ∧
      ∀ k, k < n → ∀ o, o < SectorSize →
        disk' (h.sectorAt (first + k)) o = buf (k * SectorSize + o) := by
  induction n with
  | zero => exact ⟨disk, rfl, fun _ _ => rfl, fun k hk => by omega⟩
  | succ n ih =>
    obtain ⟨disk', run, frame, bytes⟩ := ih (by omega)
    have hk : ((first + n : Nat) : Int) < h.numSectors := by omega
    have sector := v.byteToSector hk
    rw [Nat.cast_add] at sector
    refine ⟨disk'.put (h.sectorAt (first + n)) (fun j => buf (n * SectorSize + j)), ?_,
      fun s hs => ?_, fun k hkn o ho => ?_⟩
    · simp only [writeSectors, run, Exec.ok_bind, sector, Disk.writeSector_valid (v.sectorAt_lt hk)]
    · rw [Disk.put_other (hs n (by omega))]
      exact frame s fun k hkn => hs k (by omega)
    · by_cases last : k = n
      · subst last
        exact Disk.put_self ho
      · have other : h.sectorAt (first + k) ≠ h.sectorAt (first + n) := by
          intro same
          have := v.sectorAt_injective (by omega) hk same
          omega
        rw [Disk.put_other other]
        exact bytes k (by omega) o ho

/-- For a request at a position inside the file that does not overflow, the
computation of the sectors is that of natural numbers. -/
structure Request (h : FileHeader) (numBytes : Int) (p n : Nat) : Prop where
  proceeds : ¬ (numBytes ≤ 0 ∨ (p : Int) ≥ h.fileLength)
  clip : clip h.fileLength numBytes p = n
  first : firstSector p = ((p / SectorSize : Nat) : Int)
  last : lastSector n p = (((p + n - 1) / SectorSize : Nat) : Int)
  positive : 0 < n
  inside : ((p + n : Nat) : Int) ≤ h.numBytes

theorem Request.of_bounds (v : h.Valid) {numBytes : Int} {p : Nat} (positive : 0 < numBytes)
    (inside : (p : Int) < h.numBytes) (fits : p + numBytes ≤ 2147483647) :
    Request h numBytes p (min numBytes (h.numBytes - p)).toNat := by
  have length := v.length_le
  unfold MaxFileSize NumDirect SectorSize at length
  generalize hn : (min numBytes (h.numBytes - p)).toNat = n
  have small : (n : Int) = min numBytes (h.numBytes - p) := by omega
  refine ⟨?_, ?_, ?_, ?_, by omega, by omega⟩
  · unfold FileHeader.fileLength
    omega
  · unfold OpenFile.clip FileHeader.fileLength
    rw [int32_of_range (by omega) (by omega), int32_of_range (by omega) (by omega)]
    split <;> omega
  · unfold firstSector divRoundDown
    rw [Int.tdiv_eq_ediv_of_nonneg (by omega)]
    norm_cast
  · unfold lastSector divRoundDown
    rw [int32_of_range (by omega) (by omega), Int.tdiv_eq_ediv_of_nonneg (by omega)]
    unfold SectorSize
    omega

variable {numBytes : Int} {p n : Nat}

theorem Request.sectors (v : h.Valid) (r : Request h numBytes p n) :
    p / SectorSize ≤ (p + n - 1) / SectorSize ∧
      (((p + n - 1) / SectorSize : Nat) : Int) < h.numSectors := by
  have positive := r.positive
  have inside := r.inside
  refine ⟨Nat.div_le_div_right (by omega), v.sector_of_byte (by omega)⟩

/-- The buffer has room for the copy. -/
theorem Request.checkBuffer (v : h.Valid) (r : Request h numBytes p n) :
    checkBuffer (1 + (((p + n - 1) / SectorSize : Nat) : Int) - ((p / SectorSize : Nat) : Int))
      (p - ((p / SectorSize : Nat) : Int) * SectorSize) n = .ok () := by
  obtain ⟨ordered, direct⟩ := r.sectors v
  have max := v.direct
  have positive := r.positive
  unfold OpenFile.checkBuffer
  unfold NumDirect at max
  have alloc : 0 ≤ int32 ((1 + (((p + n - 1) / SectorSize : Nat) : Int) -
      ((p / SectorSize : Nat) : Int)) * SectorSize) := by
    rw [int32_of_range] <;> unfold SectorSize at * <;> omega
  have copy : 0 ≤ p - ((p / SectorSize : Nat) : Int) * SectorSize ∧
      p - ((p / SectorSize : Nat) : Int) * SectorSize + n ≤
        (1 + (((p + n - 1) / SectorSize : Nat) : Int) - ((p / SectorSize : Nat) : Int)) *
          SectorSize := by
    unfold SectorSize
    omega
  simp only [check_true alloc, Exec.ok_bind, check_true copy]

/-- `ReadAt` for a request inside the file returns the bytes of the file. -/
theorem readAt_request (disk : Disk) (v : h.Valid) (r : Request h numBytes p n) :
    ∃ data, readAt disk h numBytes p = .ok (n, data) ∧
      ∀ j, j < n → data j = h.byteAt disk (p + j) := by
  obtain ⟨ordered, direct⟩ := r.sectors v
  have positive := r.positive
  generalize hf : p / SectorSize = first at ordered
  generalize hl : (p + n - 1) / SectorSize = last at ordered direct
  have count : (1 + (last : Int) - first).toNat = last - first + 1 := by omega
  have offset : ((p : Int) - (first : Int) * SectorSize).toNat = p - first * SectorSize := by omega
  obtain ⟨buf, run, bytes⟩ := readSectors_spec disk v first (last - first + 1)
    (by omega)
  refine ⟨fun j => buf (p - first * SectorSize + j), ?_, fun j hj => ?_⟩
  · have room := r.checkBuffer v
    rw [hf, hl] at room
    unfold readAt
    rw [if_neg r.proceeds]
    simp only [r.clip, r.first, r.last, hf, hl, room, Exec.ok_bind, count, run, offset]
  · have low : first * SectorSize ≤ p := by
      unfold SectorSize at *
      omega
    have near : p - first * SectorSize + j < (last - first + 1) * SectorSize := by
      unfold SectorSize at *
      omega
    change buf (p - first * SectorSize + j) = _
    rw [bytes _ near]
    congr 1
    omega

/-- The partial read that `WriteAt` makes of one sector of the file. -/
theorem readInto_sector (disk : Disk) (v : h.Valid) (buf : Buf) (start : Nat) {k : Nat}
    (inside : ((k * SectorSize : Nat) : Int) < h.numBytes) :
    ∃ buf', readInto disk h buf start SectorSize (k * SectorSize) = .ok buf' ∧
      (∀ i, k * SectorSize ≤ i → i < (k + 1) * SectorSize → (i : Int) < h.numBytes →
        buf' (start + (i - k * SectorSize)) = h.byteAt disk i) ∧
      ∀ x, x < start ∨ start + SectorSize ≤ x → buf' x = buf x := by
  have length := v.length_le
  have r := Request.of_bounds (p := k * SectorSize) v (by decide : (0 : Int) < SectorSize) inside
    (by unfold MaxFileSize NumDirect SectorSize at *; omega)
  generalize hn : (min (SectorSize : Int) (h.numBytes - (k * SectorSize : Nat))).toNat = n at r
  obtain ⟨data, run, bytes⟩ := readAt_request disk v r
  have bound : n ≤ SectorSize := by omega
  refine ⟨blit buf start data n, ?_, fun i low high inFile => ?_, fun x hx => ?_⟩
  · rw [Nat.cast_mul] at run
    simp only [readInto, run, Exec.ok_bind, Int.toNat_natCast]
  · have near : i - k * SectorSize < n := by
      unfold SectorSize at *
      omega
    rw [blit_inside (by omega) (by omega), Nat.add_sub_cancel_left, bytes _ near]
    congr 1
    omega
  · exact blit_outside (by omega)

/-- The bytes of the file that share a sector with the request `[p, e)` without
belonging to it are in the buffer once the edges are read. -/
theorem readEdges_spec (disk : Disk) (v : h.Valid) (heap : Buf) {first last p e : Nat}
    (ordered : first ≤ last)
    (start : first * SectorSize ≤ p ∧ p < (first + 1) * SectorSize)
    (stop : last * SectorSize < e ∧ e ≤ (last + 1) * SectorSize) (nonempty : p < e)
    (inside : (e : Int) ≤ h.numBytes) :
    ∃ buf, readEdges disk h heap first last (decide ((p : Int) = first * SectorSize))
        (decide ((e : Int) = (last + 1) * SectorSize)) = .ok buf ∧
      ∀ i, first * SectorSize ≤ i → i < (last + 1) * SectorSize → (i : Int) < h.numBytes →
        i < p ∨ e ≤ i → buf (i - first * SectorSize) = h.byteAt disk i := by
  have gap : (((last : Int) - first) * SectorSize).toNat = (last - first) * SectorSize := by
    unfold SectorSize
    omega
  have firstInside : ((first * SectorSize : Nat) : Int) < h.numBytes := by
    unfold SectorSize at *
    omega
  have lastInside : ((last * SectorSize : Nat) : Int) < h.numBytes := by
    unfold SectorSize at *
    omega
  have firstRead : ∃ buf,
      readEdge disk h heap 0 first (!decide ((p : Int) = first * SectorSize)) = .ok buf ∧
      (p ≠ first * SectorSize → ∀ i, first * SectorSize ≤ i → i < (first + 1) * SectorSize →
        (i : Int) < h.numBytes → buf (i - first * SectorSize) = h.byteAt disk i) := by
    by_cases aligned : (p : Int) = first * SectorSize
    · exact ⟨heap, by simp [readEdge, aligned], fun ne => absurd (by exact_mod_cast aligned) ne⟩
    · obtain ⟨buf, run, bytes, _⟩ := readInto_sector disk v heap 0 firstInside
      refine ⟨buf, by simp [readEdge, aligned, run], fun _ i low high inFile => ?_⟩
      simpa using bytes i low high inFile
  obtain ⟨buf, run, bytes⟩ := firstRead
  unfold readEdges
  rw [run, Exec.ok_bind, gap, readEdge]
  split
  next second =>
    obtain ⟨buf', run', bytes', frame'⟩ := readInto_sector disk v buf
      ((last - first) * SectorSize) lastInside
    refine ⟨buf', run', fun i low high inFile outside => ?_⟩
    by_cases behind : last * SectorSize ≤ i
    · have place : (last - first) * SectorSize + (i - last * SectorSize) =
          i - first * SectorSize := by
        unfold SectorSize at *
        omega
      rw [← place]
      exact bytes' i behind high inFile
    · have unaligned : p ≠ first * SectorSize ∧ i < (first + 1) * SectorSize := by
        unfold SectorSize at *
        omega
      rw [frame' _ (by unfold SectorSize at *; omega)]
      exact bytes unaligned.1 i low unaligned.2 inFile
  next second =>
    refine ⟨buf, rfl, fun i low high inFile outside => ?_⟩
    -- the last sector is aligned, or it is the first one and has been read
    have covered : e = (last + 1) * SectorSize ∨ (first = last ∧ p ≠ first * SectorSize) := by
      simp only [Bool.and_eq_true, Bool.or_eq_true, Bool.not_eq_true', decide_eq_false_iff_not,
        decide_eq_true_eq, not_and_or, not_not, not_or] at second
      norm_cast at second
    have unaligned : p ≠ first * SectorSize ∧ i < (first + 1) * SectorSize := by
      unfold SectorSize at *
      omega
    exact bytes unaligned.1 i low unaligned.2 inFile

/-- `WriteAt` for a request inside the file replaces the bytes of the request and
no other byte of the file, and touches only data sectors of the file. -/
theorem writeAt_request (disk : Disk) (v : h.Valid) (r : Request h numBytes p n)
    (heap data : Buf) :
    ∃ disk', writeAt disk h heap data numBytes p = .ok (n, disk') ∧
      (∀ s, s ∉ h.sectors → disk' s = disk s) ∧
      ∀ i : Nat, (i : Int) < h.numBytes → h.byteAt disk' i =
        if p ≤ i ∧ i < p + n then data (i - p) else h.byteAt disk i := by
  obtain ⟨ordered, direct⟩ := r.sectors v
  have positive := r.positive
  have inside := r.inside
  have room := r.checkBuffer v
  have rfirst := r.first
  have rlast := r.last
  have noOverflow : int32 ((p : Int) + n) = ((p + n : Nat) : Int) := by
    have length := v.length_le
    unfold MaxFileSize NumDirect SectorSize at length
    rw [int32_of_range (by omega) (by omega)]
    rfl
  generalize hf : p / SectorSize = first at ordered room rfirst
  generalize hl : (p + n - 1) / SectorSize = last at ordered direct room rlast
  have start : first * SectorSize ≤ p ∧ p < (first + 1) * SectorSize := by
    unfold SectorSize at hf ⊢
    omega
  have stop : last * SectorSize < p + n ∧ p + n ≤ (last + 1) * SectorSize := by
    unfold SectorSize at hl ⊢
    omega
  have count : (1 + (last : Int) - first).toNat = last - first + 1 := by omega
  have offset : ((p : Int) - (first : Int) * SectorSize).toNat = p - first * SectorSize := by omega
  obtain ⟨buf, edges, around⟩ := readEdges_spec disk v heap ordered start stop
    (by omega) inside
  obtain ⟨disk', run, frame, written⟩ := writeSectors_spec disk v first (last - first + 1)
    (blit buf (p - first * SectorSize) data n) (by omega)
  refine ⟨disk', ?_, fun s hs => frame s fun k hk same => hs ?_, fun i inFile => ?_⟩
  · unfold writeAt
    rw [if_neg r.proceeds]
    simp only [r.clip, rfirst, rlast, room, Exec.ok_bind, noOverflow, edges, count, offset,
      Int.toNat_natCast, run]
  · rw [same]
    exact FileHeader.Valid.sectorAt_mem (by omega)
  · have own := v.sector_of_byte inFile
    unfold FileHeader.byteAt
    by_cases touched : first ≤ i / SectorSize ∧ i / SectorSize ≤ last
    · have here := written (i / SectorSize - first) (by omega) (i % SectorSize)
        (Nat.mod_lt _ (by decide))
      rw [show first + (i / SectorSize - first) = i / SectorSize by omega] at here
      have place : (i / SectorSize - first) * SectorSize + i % SectorSize = i - first * SectorSize ∧
          first * SectorSize ≤ i ∧ i < (last + 1) * SectorSize := by
        unfold SectorSize at touched ⊢
        omega
      rw [here, place.1]
      split
      next within =>
        rw [blit_inside (by omega) (by omega), Nat.sub_sub_sub_cancel_right start.1]
      next without =>
        rw [blit_outside (by omega)]
        exact around i place.2.1 place.2.2 inFile (by omega)
    · have outside : ¬ (p ≤ i ∧ i < p + n) := by
        unfold SectorSize at touched start stop
        omega
      rw [if_neg outside, frame]
      intro k hk same
      have := v.sectorAt_injective own (by omega) same
      omega

/-- The lookups of the loops do not get past the last entry of the header. -/
theorem byteToSector_direct {k sector : Int} (lookup : h.byteToSector (k * SectorSize) = .ok sector) :
    k < NumDirect := by
  obtain ⟨_, inside, _⟩ := Exec.bind_eq_ok.mp lookup
  have index : (k * SectorSize).tdiv SectorSize = k := Int.mul_tdiv_cancel _ (by decide)
  have bound := (check_eq_ok.mp inside).2
  rwa [index] at bound

theorem writeSectors_direct {first : Int} {buf : Buf} {n : Nat} {disk' : Disk} (positive : 0 < n)
    (run : writeSectors disk h first buf n = .ok disk') : first + n ≤ NumDirect := by
  obtain ⟨n, rfl⟩ : ∃ k, n = k + 1 := ⟨n - 1, by omega⟩
  rw [writeSectors] at run
  obtain ⟨_, _, run⟩ := Exec.bind_eq_ok.mp run
  obtain ⟨sector, lookup, _⟩ := Exec.bind_eq_ok.mp run
  have bound := byteToSector_direct lookup
  push_cast
  omega

theorem readSectors_direct {first : Int} {n : Nat} {buf : Buf} (positive : 0 < n)
    (run : readSectors disk h first n = .ok buf) : first + n ≤ NumDirect := by
  obtain ⟨n, rfl⟩ : ∃ k, n = k + 1 := ⟨n - 1, by omega⟩
  rw [readSectors] at run
  obtain ⟨_, _, run⟩ := Exec.bind_eq_ok.mp run
  obtain ⟨sector, lookup, _⟩ := Exec.bind_eq_ok.mp run
  have bound := byteToSector_direct lookup
  push_cast
  omega

/-- A request whose end overflows is not clipped, -/
theorem clip_overflow (v : h.Valid) (inside : (p : Int) < h.numBytes) (high : numBytes ≤ 2147483647)
    (overflow : 2147483647 < p + numBytes) :
    ¬ (numBytes ≤ 0 ∨ (p : Int) ≥ h.fileLength) ∧ clip h.fileLength numBytes p = numBytes ∧
      firstSector p = ((p / SectorSize : Nat) : Int) := by
  have length := v.length_le
  unfold MaxFileSize NumDirect SectorSize at length
  have wraps : int32 (p + numBytes) = p + numBytes - 4294967296 := by
    unfold int32
    rw [Int.bmod_def]
    norm_num
    split <;> omega
  refine ⟨?_, ?_, ?_⟩
  · unfold FileHeader.fileLength
    omega
  · unfold clip FileHeader.fileLength
    rw [wraps, if_neg (by omega)]
  · unfold firstSector divRoundDown
    rw [Int.tdiv_eq_ediv_of_nonneg (by omega)]
    norm_cast

/-- and it asks for more sectors than there are. -/
theorem checkBuffer_overflow (v : h.Valid) {numSectors : Int} (inside : (p : Int) < h.numBytes)
    (overflow : 2147483647 < p + numBytes)
    (room : checkBuffer numSectors (p - ((p / SectorSize : Nat) : Int) * SectorSize) numBytes =
      .ok ()) : NumDirect < numSectors := by
  have length := v.length_le
  obtain ⟨_, _, copy⟩ := Exec.bind_eq_ok.mp room
  have fits := (check_eq_ok.mp copy).2
  unfold MaxFileSize NumDirect SectorSize at *
  omega

theorem writeAt_overflow (v : h.Valid) {heap data : Buf} {r : Int × Disk}
    (inside : (p : Int) < h.numBytes) (high : numBytes ≤ 2147483647)
    (overflow : 2147483647 < p + numBytes) : writeAt disk h heap data numBytes p ≠ .ok r := by
  obtain ⟨proceeds, whole, start⟩ := clip_overflow v inside high overflow
  intro run
  unfold writeAt at run
  rw [if_neg proceeds] at run
  simp only [whole, start] at run
  obtain ⟨_, room, run⟩ := Exec.bind_eq_ok.mp run
  obtain ⟨_, _, run⟩ := Exec.bind_eq_ok.mp run
  obtain ⟨disk', loop, _⟩ := Exec.bind_eq_ok.mp run
  have many := checkBuffer_overflow v inside overflow room
  generalize 1 + lastSector numBytes p - ((p / SectorSize : Nat) : Int) = numSectors at many loop
  have direct := writeSectors_direct (by omega) loop
  generalize p / SectorSize = first at direct
  omega

theorem readAt_overflow (v : h.Valid) {r : Int × Buf} (inside : (p : Int) < h.numBytes)
    (high : numBytes ≤ 2147483647) (overflow : 2147483647 < p + numBytes) :
    readAt disk h numBytes p ≠ .ok r := by
  obtain ⟨proceeds, whole, start⟩ := clip_overflow v inside high overflow
  intro run
  unfold readAt at run
  rw [if_neg proceeds] at run
  simp only [whole, start] at run
  obtain ⟨_, room, run⟩ := Exec.bind_eq_ok.mp run
  obtain ⟨buf, loop, _⟩ := Exec.bind_eq_ok.mp run
  have many := checkBuffer_overflow v inside overflow room
  generalize 1 + lastSector numBytes p - ((p / SectorSize : Nat) : Int) = numSectors at many loop
  have direct := readSectors_direct (by omega) loop
  generalize p / SectorSize = first at direct
  omega

/-- What any `WriteAt` at a position that is not negative does, if it returns:
nothing outside the data sectors of the file changes, and the bytes of the file
are replaced where the request and the file overlap. -/
theorem writeAt_effect (v : h.Valid) {heap data : Buf} {position count : Int} {disk' : Disk}
    (high : numBytes ≤ 2147483647) (nonneg : 0 < numBytes → 0 ≤ position)
    (run : writeAt disk h heap data numBytes position = .ok (count, disk')) :
    (∀ s, s ∉ h.sectors → disk' s = disk s) ∧
      (count = 0 ∨ 0 < count ∧ position + count ≤ h.numBytes) := by
  by_cases nothing : numBytes ≤ 0 ∨ position ≥ h.fileLength
  · unfold writeAt at run
    rw [if_pos nothing] at run
    cases run
    exact ⟨fun _ _ => rfl, .inl rfl⟩
  · have bounds : 0 < numBytes ∧ position < h.numBytes := by
      unfold FileHeader.fileLength at nothing
      omega
    obtain ⟨p, rfl⟩ := Int.eq_ofNat_of_zero_le (nonneg bounds.1)
    by_cases fits : p + numBytes ≤ 2147483647
    · have r := Request.of_bounds v bounds.1 bounds.2 fits
      obtain ⟨after, done, frame, _⟩ := writeAt_request disk v r heap data
      rw [done] at run
      cases run
      have positive := r.positive
      have inside := r.inside
      exact ⟨frame, .inr ⟨by omega, by omega⟩⟩
    · exact absurd run (writeAt_overflow v bounds.2 high (by omega))

/-- Reading the front of a file into the front of a buffer. -/
theorem readInto_front (disk : Disk) (v : h.Valid) {n : Nat} (fits : (n : Int) ≤ h.numBytes)
    (buf : Buf) :
    ∃ buf', readInto disk h buf 0 n 0 = .ok buf' ∧ (∀ a < n, buf' a = h.byteAt disk a) ∧
      ∀ a, n ≤ a → buf' a = buf a := by
  have length := v.length_le
  by_cases none : n = 0
  · subst none
    refine ⟨blit buf 0 (fun _ => 0) 0, ?_, fun a ha => absurd ha (Nat.not_lt_zero a), fun a _ => ?_⟩
    · unfold readInto readAt
      rw [if_pos (.inl (by omega))]
      rfl
    · exact blit_outside (by omega)
  · have r := Request.of_bounds (p := 0) v (by omega : (0 : Int) < n) (by omega)
      (by unfold MaxFileSize NumDirect SectorSize at length; omega)
    have count : (min (n : Int) (h.numBytes - (0 : Nat))).toNat = n := by omega
    rw [count] at r
    obtain ⟨data, run, bytes⟩ := readAt_request disk v r
    refine ⟨blit buf 0 data n, ?_, fun a ha => ?_, fun a ha => ?_⟩
    · rw [Nat.cast_zero] at run
      simp only [readInto, run, Exec.ok_bind, Int.toNat_natCast]
    · rw [blit_inside (by omega) (by omega), Nat.sub_zero, bytes a ha, Nat.zero_add]
    · exact blit_outside (by omega)

/-- Writing the front of a file. -/
theorem writeAt_front (disk : Disk) (v : h.Valid) {n : Nat} (fits : (n : Int) ≤ h.numBytes)
    (heap data : Buf) :
    ∃ count disk', writeAt disk h heap data n 0 = .ok (count, disk') ∧
      (∀ s, s ∉ h.sectors → disk' s = disk s) ∧ ∀ a < n, h.byteAt disk' a = data a := by
  have length := v.length_le
  by_cases none : n = 0
  · subst none
    refine ⟨0, disk, ?_, fun _ _ => rfl, fun a ha => absurd ha (Nat.not_lt_zero a)⟩
    unfold writeAt
    exact if_pos (.inl (by omega))
  · have r := Request.of_bounds (p := 0) v (by omega : (0 : Int) < n) (by omega)
      (by unfold MaxFileSize NumDirect SectorSize at length; omega)
    obtain ⟨disk', run, frame, bytes⟩ := writeAt_request disk v r heap data
    rw [Nat.cast_zero] at run
    refine ⟨_, disk', run, frame, fun a ha => ?_⟩
    rw [bytes a (by omega), if_pos (by omega), Nat.sub_zero]

/-- Reading a whole file into the front of a buffer. -/
theorem readInto_whole (disk : Disk) (v : h.Valid) (nonempty : 0 < h.numBytes) (buf : Buf) :
    ∃ buf', readInto disk h buf 0 h.numBytes 0 = .ok buf' ∧
      ∀ a : Nat, (a : Int) < h.numBytes → buf' a = h.byteAt disk a := by
  have length : ((h.numBytes.toNat : Nat) : Int) = h.numBytes := by omega
  obtain ⟨buf', run, bytes, -⟩ := readInto_front disk v (le_of_eq length) buf
  rw [length] at run
  exact ⟨buf', run, fun a ha => bytes a (by omega)⟩

/-- Writing a whole file. -/
theorem writeAt_whole (disk : Disk) (v : h.Valid) (nonempty : 0 < h.numBytes)
    (heap data : Buf) :
    ∃ count disk', writeAt disk h heap data h.numBytes 0 = .ok (count, disk') ∧
      (∀ s, s ∉ h.sectors → disk' s = disk s) ∧
      ∀ a : Nat, (a : Int) < h.numBytes → h.byteAt disk' a = data a := by
  have length : ((h.numBytes.toNat : Nat) : Int) = h.numBytes := by omega
  obtain ⟨count, disk', run, frame, bytes⟩ := writeAt_front disk v (le_of_eq length) heap data
  rw [length] at run
  exact ⟨count, disk', run, frame, fun a ha => bytes a (by omega)⟩

theorem byteAt_congr (v : h.Valid) {disk' : Disk} (same : ∀ s ∈ h.sectors, disk' s = disk s)
    {i : Nat} (hi : (i : Int) < h.numBytes) : h.byteAt disk' i = h.byteAt disk i := by
  unfold FileHeader.byteAt
  rw [same _ (FileHeader.Valid.sectorAt_mem (v.sector_of_byte hi))]

end OpenFile

end NachOS.Filesys
