import NachOS.Library.Bitmap

/-!
# Disk sectors and file headers (filesys/filehdr.cc:43-127, machine/disk.cc:113-152)

The disk is a sequence of `NumSectors` sectors of `SectorSize` bytes;
`SynchDisk::ReadSector` and `WriteSector` return when the transfer is done and
are modelled by their effect, with the assertion on the sector number.

A file header is exactly one sector: `numBytes`, `numSectors` and `NumDirect`
sector numbers, read from and written to the disk as raw bytes. `dataSectors[i]`
is an access at the address of the array plus `i` words: an index of -1 or -2
still falls inside the header object and reads `numSectors` or `numBytes`; any
other index outside the array leaves the object. The entries that `Allocate`
does not fill keep whatever `new FileHeader` left there.
-/
namespace NachOS.Filesys
open NachOS.Lib NachOS.Library

def SectorSize : Nat := 128

def NumSectors : Nat := 1024

def NumDirect : Nat := 30

def MaxFileSize : Nat := NumDirect * SectorSize

abbrev Disk := Nat → Buf

namespace Disk

def ValidSector (sectorNumber : Int) : Prop := 0 ≤ sectorNumber ∧ sectorNumber < NumSectors

instance (sectorNumber : Int) : Decidable (ValidSector sectorNumber) :=
  inferInstanceAs (Decidable (_ ∧ _))

/-- `SynchDisk::ReadSector`: the `SectorSize` bytes it transfers. -/
def readSector (disk : Disk) (sectorNumber : Int) : Exec Buf := do
  check (ValidSector sectorNumber) .assertion
  .ok (disk sectorNumber.toNat)

/-- The disk after a transfer of `data` to one sector. -/
def put (disk : Disk) (sector : Nat) (data : Buf) : Disk :=
  Function.update disk sector (blit (disk sector) 0 data SectorSize)

/-- `SynchDisk::WriteSector`. -/
def writeSector (disk : Disk) (sectorNumber : Int) (data : Buf) : Exec Disk := do
  check (ValidSector sectorNumber) .assertion
  .ok (disk.put sectorNumber.toNat data)

variable {disk : Disk} {sector : Nat} {data : Buf}

theorem readSector_valid (h : sector < NumSectors) : disk.readSector sector = .ok (disk sector) := by
  have valid : ValidSector sector := ⟨by omega, by omega⟩
  simp [readSector, check_true valid]

theorem writeSector_valid (h : sector < NumSectors) :
    disk.writeSector sector data = .ok (disk.put sector data) := by
  have valid : ValidSector sector := ⟨by omega, by omega⟩
  simp [writeSector, check_true valid]

theorem put_other {s : Nat} (h : s ≠ sector) : disk.put sector data s = disk s :=
  Function.update_of_ne h _ _

theorem put_self {i : Nat} (h : i < SectorSize) : disk.put sector data sector i = data i := by
  unfold put
  rw [Function.update_self, blit_inside (Nat.zero_le _) (by omega), Nat.sub_zero]

end Disk

/-- `divRoundDown` and `divRoundUp` (lib/utility.h:24-25), with C division. -/
def divRoundDown (n s : Int) : Int := n.tdiv s

def divRoundUp (n s : Int) : Int := n.tdiv s + if n.tmod s > 0 then 1 else 0

theorem divRoundUp_nonneg {n : Int} (h : 0 ≤ n) :
    divRoundUp n SectorSize = (n + (SectorSize - 1)) / SectorSize := by
  unfold divRoundUp SectorSize
  rw [Int.tdiv_eq_ediv_of_nonneg h, Int.tmod_eq_emod_of_nonneg h]
  split <;> omega

theorem divRoundUp_neg {n : Int} (h : n < 0) :
    divRoundUp n SectorSize = -(-n / SectorSize) := by
  obtain ⟨k, rfl⟩ : ∃ k, n = -k := ⟨-n, by omega⟩
  unfold divRoundUp SectorSize
  rw [Int.neg_tdiv, Int.neg_tmod, Int.tdiv_eq_ediv_of_nonneg (by omega),
    Int.tmod_eq_emod_of_nonneg (by omega)]
  split <;> omega

theorem divRoundUp_bounds {n : Int} (low : -2147483648 ≤ n) (high : n ≤ MaxFileSize) :
    -2147483648 ≤ divRoundUp n SectorSize ∧ divRoundUp n SectorSize ≤ NumDirect := by
  by_cases nonneg : 0 ≤ n
  · rw [divRoundUp_nonneg nonneg]
    unfold MaxFileSize NumDirect SectorSize at *
    omega
  · rw [divRoundUp_neg (by omega)]
    unfold NumDirect SectorSize
    omega

structure FileHeader where
  bytes : Buf

namespace FileHeader

def numBytes (h : FileHeader) : Int := int h.bytes 0

def numSectors (h : FileHeader) : Int := int h.bytes 4

/-- The entry `k` of `dataSectors`, for `k < NumDirect`. -/
def entry (h : FileHeader) (k : Nat) : Int := int h.bytes (8 + 4 * k)

/-- The expression `dataSectors[i]`. -/
def dataSectors (h : FileHeader) (i : Int) : Exec Int := do
  check (-2 ≤ i ∧ i < NumDirect) .outOfBounds
  .ok (int h.bytes (8 + 4 * i).toNat)

/-- The assignment `dataSectors[i] = sector`. -/
def setDataSector (h : FileHeader) (i : Nat) (sector : Int) : Exec FileHeader := do
  check (i < NumDirect) .outOfBounds
  .ok ⟨setInt h.bytes (8 + 4 * i) sector⟩

/-- The loop of `Allocate`, for the first `n` entries. -/
def allocateSectors (h : FileHeader) (freeMap : Bitmap) : Nat → Exec (FileHeader × Bitmap)
  | 0 => .ok (h, freeMap)
  | n + 1 => do
    let (h, freeMap) ← allocateSectors h freeMap n
    let (sector, freeMap) ← freeMap.findAndSet
    let h ← h.setDataSector n sector
    check (0 ≤ sector) .assertion
    .ok (h, freeMap)

/-- `FileHeader::Allocate`. -/
def allocate (h : FileHeader) (freeMap : Bitmap) (fileSize : Int) :
    Exec (Bool × FileHeader × Bitmap) :=
  let h : FileHeader := ⟨setInt (setInt h.bytes 0 fileSize) 4 (divRoundUp fileSize SectorSize)⟩
  if freeMap.numClear < h.numSectors then .ok (false, h, freeMap)
  else do
    let (h, freeMap) ← h.allocateSectors freeMap h.numSectors.toNat
    .ok (true, h, freeMap)

/-- The loop of `Deallocate`, for the first `n` entries. -/
def deallocateSectors (h : FileHeader) (freeMap : Bitmap) : Nat → Exec Bitmap
  | 0 => .ok freeMap
  | n + 1 => do
    let freeMap ← deallocateSectors h freeMap n
    let sector ← h.dataSectors n
    let used ← freeMap.test sector
    check (used = true) .assertion
    freeMap.clear sector

/-- `FileHeader::Deallocate`. -/
def deallocate (h : FileHeader) (freeMap : Bitmap) : Exec Bitmap :=
  h.deallocateSectors freeMap h.numSectors.toNat

/-- `FileHeader::FetchFrom`. -/
def fetchFrom (disk : Disk) (sector : Int) : Exec FileHeader := do
  let data ← disk.readSector sector
  .ok ⟨data⟩

/-- `FileHeader::WriteBack`. -/
def writeBack (h : FileHeader) (disk : Disk) (sector : Int) : Exec Disk :=
  disk.writeSector sector h.bytes

/-- `FileHeader::ByteToSector`. -/
def byteToSector (h : FileHeader) (offset : Int) : Exec Int :=
  h.dataSectors (offset.tdiv SectorSize)

/-- `FileHeader::FileLength`. -/
def fileLength (h : FileHeader) : Int := h.numBytes

/-- The number of the `k`th data sector. -/
def sectorAt (h : FileHeader) (k : Nat) : Nat := (h.entry k).toNat

/-- The data sectors of a file. -/
def sectors (h : FileHeader) : List Nat := (List.range h.numSectors.toNat).map h.sectorAt

/-- A header as the file system keeps them: one data sector for each `SectorSize`
bytes begun, at most `NumDirect`, all different and on the disk. -/
structure Valid (h : FileHeader) : Prop where
  count : h.numSectors = divRoundUp h.numBytes SectorSize
  direct : h.numSectors ≤ NumDirect
  onDisk : ∀ k : Nat, (k : Int) < h.numSectors → Disk.ValidSector (h.entry k)
  distinct : h.sectors.Nodup

variable {h h' : FileHeader}

theorem dataSectors_inside {k : Nat} (hk : k < NumDirect) : h.dataSectors k = .ok (h.entry k) := by
  have inside : -2 ≤ (k : Int) ∧ (k : Int) < NumDirect := ⟨by omega, by omega⟩
  have address : (8 + 4 * (k : Int)).toNat = 8 + 4 * k := by omega
  simp only [dataSectors, check_true inside, Exec.ok_bind, address, entry]

/-- Headers that agree on their `SectorSize` bytes are the same header. -/
structure Same (h h' : FileHeader) : Prop where
  bytes : ∀ i < SectorSize, h.bytes i = h'.bytes i

namespace Same

theorem numBytes (same : Same h h') : h.numBytes = h'.numBytes :=
  int_congr fun i _ hi => same.bytes i (by unfold SectorSize; omega)

theorem numSectors (same : Same h h') : h.numSectors = h'.numSectors :=
  int_congr fun i _ hi => same.bytes i (by unfold SectorSize; omega)

theorem entry (same : Same h h') {k : Nat} (hk : k < NumDirect) : h.entry k = h'.entry k :=
  int_congr fun i _ hi => same.bytes i (by unfold SectorSize NumDirect at *; omega)

theorem sectors (same : Same h h') (direct : h.numSectors ≤ NumDirect) :
    h.sectors = h'.sectors := by
  unfold FileHeader.sectors
  rw [← same.numSectors]
  apply List.map_congr_left
  intro k hk
  have : k < NumDirect := by
    rw [List.mem_range] at hk
    omega
  unfold sectorAt
  rw [same.entry this]

theorem valid (same : Same h h') (v : h.Valid) : h'.Valid where
  count := by rw [← same.numSectors, ← same.numBytes, v.count]
  direct := same.numSectors ▸ v.direct
  onDisk := by
    intro k hk
    rw [← same.numSectors] at hk
    have := v.direct
    rw [← same.entry (by omega)]
    exact v.onDisk k hk
  distinct := same.sectors v.direct ▸ v.distinct

theorem symm (same : Same h h') : Same h' h := ⟨fun i hi => (same.bytes i hi).symm⟩

end Same

namespace Valid

theorem sectorAt_eq (v : h.Valid) {k : Nat} (hk : (k : Int) < h.numSectors) :
    (h.sectorAt k : Int) = h.entry k :=
  Int.toNat_of_nonneg (v.onDisk k hk).1

theorem sectorAt_lt (v : h.Valid) {k : Nat} (hk : (k : Int) < h.numSectors) :
    h.sectorAt k < NumSectors := by
  have inside := (v.onDisk k hk).2
  have eq := v.sectorAt_eq hk
  omega

theorem sectorAt_mem {k : Nat} (hk : (k : Int) < h.numSectors) : h.sectorAt k ∈ h.sectors :=
  List.mem_map.mpr ⟨k, List.mem_range.mpr (by omega), rfl⟩

theorem sectorAt_injective (v : h.Valid) {j k : Nat} (hj : (j : Int) < h.numSectors)
    (hk : (k : Int) < h.numSectors) (same : h.sectorAt j = h.sectorAt k) : j = k := by
  have inj := List.inj_on_of_nodup_map v.distinct
  exact inj (List.mem_range.mpr (by omega)) (List.mem_range.mpr (by omega)) same

theorem mem_sectors (v : h.Valid) {s : Nat} (member : s ∈ h.sectors) : s < NumSectors := by
  obtain ⟨k, hk, rfl⟩ := List.mem_map.mp member
  rw [List.mem_range] at hk
  exact v.sectorAt_lt (by omega)

/-- The sector number that the loops of `OpenFile` look up for their `k`th sector. -/
theorem byteToSector (v : h.Valid) {k : Nat} (hk : (k : Int) < h.numSectors) :
    h.byteToSector (k * SectorSize) = .ok (h.sectorAt k : Int) := by
  have direct := v.direct
  have index : ((k : Int) * SectorSize).tdiv SectorSize = k :=
    Int.mul_tdiv_cancel _ (by decide)
  rw [FileHeader.byteToSector, index, dataSectors_inside (by omega), v.sectorAt_eq hk]

end Valid

/-- A header whose data sectors are different bits of a map of `bound` bits. -/
structure Listed (h : FileHeader) (bound : Nat) : Prop where
  direct : h.numSectors ≤ NumDirect
  entries : ∀ k : Nat, (k : Int) < h.numSectors → h.entry k = h.sectorAt k ∧ h.sectorAt k < bound
  distinct : h.sectors.Nodup

theorem Valid.listed (v : h.Valid) : h.Listed NumSectors :=
  ⟨v.direct, fun _ hk => ⟨(v.sectorAt_eq hk).symm, v.sectorAt_lt hk⟩, v.distinct⟩

/-- The first `n` data sectors. -/
def firstSectors (h : FileHeader) (n : Nat) : List Nat := (List.range n).map h.sectorAt

theorem firstSectors_succ (h : FileHeader) (n : Nat) :
    h.firstSectors (n + 1) = h.firstSectors n ++ [h.sectorAt n] := by
  simp [firstSectors, List.range_succ]

/-- What the loop of `Allocate` has done after `n` rounds. -/
structure Allocated (h : FileHeader) (freeMap : Bitmap) (n : Nat) (h' : FileHeader)
    (freeMap' : Bitmap) : Prop where
  frame : ∀ i, i < 8 → h'.bytes i = h.bytes i
  entries : ∀ k, k < n → h'.entry k = h'.sectorAt k
  fresh : ∀ s ∈ h'.firstSectors n, s < freeMap.numBits ∧ freeMap.bit s = false
  nodup : (h'.firstSectors n).Nodup
  size : freeMap'.numBits = freeMap.numBits
  bit : ∀ i, freeMap'.bit i = true ↔ i ∈ h'.firstSectors n ∨ freeMap.bit i = true
  clear : freeMap'.numClear + n = freeMap.numClear

theorem Allocated.step {freeMap freeMap' : Bitmap} {n i : Nat}
    (before : Allocated h freeMap n h' freeMap') (range : i < freeMap'.numBits)
    (unset : freeMap'.bit i = false) (small : freeMap.numBits ≤ 2147483647) :
    Allocated h freeMap (n + 1) ⟨setInt h'.bytes (8 + 4 * n) i⟩ (freeMap'.marked i) := by
  have last : (⟨setInt h'.bytes (8 + 4 * n) i⟩ : FileHeader).entry n = i := by
    have := before.size
    exact int_setInt (by omega) (by omega)
  have earlier : ∀ k, k < n →
      (⟨setInt h'.bytes (8 + 4 * n) i⟩ : FileHeader).entry k = h'.entry k :=
    fun k hk => int_setInt_of_disjoint (by omega)
  have first : (⟨setInt h'.bytes (8 + 4 * n) i⟩ : FileHeader).firstSectors n =
      h'.firstSectors n := by
    apply List.map_congr_left
    intro k hk
    unfold sectorAt
    rw [earlier k (List.mem_range.mp hk)]
  have all : (⟨setInt h'.bytes (8 + 4 * n) i⟩ : FileHeader).firstSectors (n + 1) =
      h'.firstSectors n ++ [i] := by
    rw [firstSectors_succ, first]
    unfold sectorAt
    rw [last]
    rfl
  have new : i ∉ h'.firstSectors n ∧ freeMap.bit i = false := by
    have := before.bit i
    rw [unset] at this
    simpa using this
  exact {
    frame := by
      intro j hj
      exact (setWord_outside (by omega)).trans (before.frame j hj)
    entries := by
      intro k hk
      by_cases hkn : k = n
      · subst hkn
        unfold sectorAt
        rw [last]
        rfl
      · unfold sectorAt
        rw [earlier k (by omega)]
        exact before.entries k (by omega)
    fresh := by
      intro s hs
      rw [all, List.mem_append, List.mem_singleton] at hs
      rcases hs with hs | rfl
      · exact before.fresh s hs
      · exact ⟨before.size ▸ range, new.2⟩
    nodup := by
      rw [all, List.nodup_append]
      simpa using ⟨before.nodup, fun a ha => ne_of_mem_of_not_mem ha new.1⟩
    size := before.size
    bit := by
      intro j
      rw [Bitmap.bit_marked, all, List.mem_append, List.mem_singleton]
      simp only [Bool.or_eq_true, decide_eq_true_eq, before.bit j]
      tauto
    clear := by
      have counted := Bitmap.numClear_marked range unset
      have := before.clear
      omega }

/-- As long as there are enough clear bits and entries, no round fails. -/
theorem allocateSectors_spec (h : FileHeader) {freeMap : Bitmap} {n : Nat}
    (small : freeMap.numBits ≤ 2147483647) (enough : n ≤ freeMap.numClear)
    (direct : n ≤ NumDirect) :
    ∃ h' freeMap', h.allocateSectors freeMap n = .ok (h', freeMap') ∧
      Allocated h freeMap n h' freeMap' := by
  induction n with
  | zero =>
    refine ⟨h, freeMap, rfl, ⟨fun _ _ => rfl, ?_, ?_, ?_, rfl, ?_, rfl⟩⟩ <;> simp [firstSectors]
  | succ n ih =>
    obtain ⟨h', freeMap', run, before⟩ := ih (by omega) (by omega)
    have some_clear : 0 < freeMap'.numClear := by
      have := before.clear
      omega
    rcases freeMap'.findAndSet_cases with ⟨i, range, unset, found⟩ | ⟨full, _⟩
    · refine ⟨_, _, ?_, before.step range unset small⟩
      have inside : n < NumDirect := by omega
      have nonneg : (0 : Int) ≤ i := by omega
      simp only [allocateSectors, run, found, setDataSector, Exec.ok_bind, check_true inside,
        check_true nonneg]
    · obtain ⟨i, range, unset⟩ := Bitmap.numClear_pos.mp some_clear
      rw [full i range] at unset
      cases unset

/-- There are only `NumDirect` entries to fill. -/
theorem allocateSectors_beyond (h : FileHeader) (freeMap : Bitmap) {n : Nat}
    (beyond : NumDirect < n) (r : FileHeader × Bitmap) : h.allocateSectors freeMap n ≠ .ok r := by
  obtain ⟨n, rfl⟩ : ∃ k, n = k + 1 := ⟨n - 1, by omega⟩
  intro run
  rw [allocateSectors] at run
  obtain ⟨⟨h', freeMap'⟩, _, run⟩ := Exec.bind_eq_ok.mp run
  obtain ⟨⟨sector, freeMap''⟩, _, run⟩ := Exec.bind_eq_ok.mp run
  obtain ⟨h'', stored, _⟩ := Exec.bind_eq_ok.mp run
  obtain ⟨_, inside, _⟩ := Exec.bind_eq_ok.mp stored
  have := check_eq_ok.mp inside
  omega

theorem divRoundUp_int32 (fileSize : Int) (low : -2147483648 ≤ fileSize)
    (high : fileSize ≤ 2147483647) :
    -2147483648 ≤ divRoundUp fileSize SectorSize ∧ divRoundUp fileSize SectorSize ≤ 2147483647 := by
  by_cases nonneg : 0 ≤ fileSize
  · rw [divRoundUp_nonneg nonneg]
    unfold SectorSize
    omega
  · rw [divRoundUp_neg (by omega)]
    unfold SectorSize
    omega

/-- The header with the two counts, before any entry is filled. -/
def counted (h : FileHeader) (fileSize : Int) : FileHeader :=
  ⟨setInt (setInt h.bytes 0 fileSize) 4 (divRoundUp fileSize SectorSize)⟩

theorem counted_counts (h : FileHeader) (fileSize : Int) (low : -2147483648 ≤ fileSize)
    (high : fileSize ≤ 2147483647) : (h.counted fileSize).numBytes = fileSize ∧
      (h.counted fileSize).numSectors = divRoundUp fileSize SectorSize := by
  obtain ⟨low', high'⟩ := divRoundUp_int32 fileSize low high
  constructor
  · exact (int_setInt_of_disjoint (by omega)).trans (int_setInt low high)
  · exact int_setInt low' high'

/-- `Allocate` in terms of the number of sectors. -/
theorem allocate_eq (h : FileHeader) (freeMap : Bitmap) (fileSize : Int)
    (low : -2147483648 ≤ fileSize) (high : fileSize ≤ 2147483647) :
    h.allocate freeMap fileSize =
      if (freeMap.numClear : Int) < divRoundUp fileSize SectorSize then
        .ok (false, h.counted fileSize, freeMap)
      else ((h.counted fileSize).allocateSectors freeMap (divRoundUp fileSize SectorSize).toNat).map
        fun r => (true, r) := by
  have counts := (h.counted_counts fileSize low high).2
  have start : (⟨setInt (setInt h.bytes 0 fileSize) 4 (divRoundUp fileSize SectorSize)⟩ :
      FileHeader) = h.counted fileSize := rfl
  unfold allocate
  simp only [start, counts]
  split
  · rfl
  · cases (h.counted fileSize).allocateSectors freeMap (divRoundUp fileSize SectorSize).toNat with
    | error fault => rfl
    | ok r => rfl

/-- `Allocate` fails without effect on the map when there are not enough clear
bits. Otherwise, for a size a header can hold, its sectors were clear, and they are
what the map marks in addition. -/
theorem allocate_listed (h : FileHeader) (freeMap : Bitmap) (fileSize : Int)
    (small : freeMap.numBits ≤ 2147483647) (low : -2147483648 ≤ fileSize)
    (max : fileSize ≤ MaxFileSize) :
    ((freeMap.numClear : Int) < divRoundUp fileSize SectorSize ∧
      ∃ h', h.allocate freeMap fileSize = .ok (false, h', freeMap)) ∨
    (divRoundUp fileSize SectorSize ≤ (freeMap.numClear : Int) ∧
      ∃ h' freeMap', h.allocate freeMap fileSize = .ok (true, h', freeMap') ∧
      h'.Listed freeMap.numBits ∧ h'.numBytes = fileSize ∧
      h'.numSectors = divRoundUp fileSize SectorSize ∧ freeMap'.numBits = freeMap.numBits ∧
      (∀ s ∈ h'.sectors, freeMap.bit s = false) ∧
      (∀ i, freeMap'.bit i = true ↔ i ∈ h'.sectors ∨ freeMap.bit i = true) ∧
      freeMap'.numClear + h'.sectors.length = freeMap.numClear) := by
  have bounds := divRoundUp_bounds low max
  have high : fileSize ≤ 2147483647 := by
    unfold MaxFileSize NumDirect SectorSize at max
    omega
  have counts := h.counted_counts fileSize low high
  rw [h.allocate_eq freeMap fileSize low high]
  generalize hn : divRoundUp fileSize SectorSize = n at bounds counts
  by_cases full : (freeMap.numClear : Int) < n
  · exact .inl ⟨full, h.counted fileSize, by rw [if_pos full]⟩
  · refine .inr ⟨by omega, ?_⟩
    rw [if_neg full]
    obtain ⟨h', freeMap', run, done⟩ := (h.counted fileSize).allocateSectors_spec (n := n.toNat)
      small (by omega) (by omega)
    have bytes : h'.numBytes = fileSize := by
      rw [← counts.1]
      exact int_congr fun i _ hi => done.frame i (by omega)
    have sectors : h'.numSectors = n := by
      rw [← counts.2]
      exact int_congr fun i _ hi => done.frame i (by omega)
    have listed : h'.sectors = h'.firstSectors n.toNat := by
      unfold FileHeader.sectors
      rw [sectors]
      rfl
    refine ⟨h', freeMap', by rw [run]; rfl, ⟨by omega, fun k hk => ?_, ?_⟩, bytes, sectors,
      done.size, ?_, ?_, ?_⟩
    · rw [sectors] at hk
      have member : h'.sectorAt k ∈ h'.firstSectors n.toNat :=
        List.mem_map.mpr ⟨k, List.mem_range.mpr (by omega), rfl⟩
      exact ⟨done.entries k (by omega), (done.fresh _ member).1⟩
    · rw [listed]
      exact done.nodup
    · rw [listed]
      exact fun s hs => (done.fresh s hs).2
    · rw [listed]
      exact done.bit
    · rw [listed, firstSectors, List.length_map, List.length_range]
      exact done.clear

/-- On a map of the disk the header is valid. -/
theorem allocate_spec (h : FileHeader) (freeMap : Bitmap) (fileSize : Int)
    (size : freeMap.numBits = NumSectors) (low : -2147483648 ≤ fileSize)
    (max : fileSize ≤ MaxFileSize) :
    ((freeMap.numClear : Int) < divRoundUp fileSize SectorSize ∧
      ∃ h', h.allocate freeMap fileSize = .ok (false, h', freeMap)) ∨
    (divRoundUp fileSize SectorSize ≤ (freeMap.numClear : Int) ∧
      ∃ h' freeMap', h.allocate freeMap fileSize = .ok (true, h', freeMap') ∧
      h'.Valid ∧ h'.numBytes = fileSize ∧ freeMap'.numBits = NumSectors ∧
      (∀ s ∈ h'.sectors, freeMap.bit s = false) ∧
      (∀ i, freeMap'.bit i = true ↔ i ∈ h'.sectors ∨ freeMap.bit i = true) ∧
      freeMap'.numClear + h'.sectors.length = freeMap.numClear) := by
  have small : freeMap.numBits ≤ 2147483647 := by
    rw [size]
    decide
  rcases h.allocate_listed freeMap fileSize small low max with full | ⟨enough, done⟩
  · exact .inl full
  · obtain ⟨h', freeMap', run, listed, bytes, sectors, size', clear, bits, counted⟩ := done
    refine .inr ⟨enough, h', freeMap', run, ⟨?_, listed.direct, fun k hk => ?_, listed.distinct⟩,
      bytes, size'.trans size, clear, bits, counted⟩
    · rw [sectors, bytes]
    · obtain ⟨entry, inside⟩ := listed.entries k hk
      rw [entry]
      exact ⟨by omega, by omega⟩

/-- A size that a header cannot hold is refused, or the run does not go on. -/
theorem allocate_large (h : FileHeader) {freeMap : Bitmap} {fileSize : Int}
    (high : fileSize ≤ 2147483647) (large : MaxFileSize < fileSize) (r : FileHeader × Bitmap) :
    h.allocate freeMap fileSize ≠ .ok (true, r) := by
  have beyond : NumDirect < divRoundUp fileSize SectorSize := by
    rw [divRoundUp_nonneg (by omega)]
    unfold MaxFileSize NumDirect SectorSize at *
    omega
  intro run
  rw [h.allocate_eq freeMap fileSize (by omega) high] at run
  split at run
  · cases run
  · cases loop : (h.counted fileSize).allocateSectors freeMap
      (divRoundUp fileSize SectorSize).toNat with
    | error fault =>
      rw [loop] at run
      cases run
    | ok r' => exact allocateSectors_beyond _ freeMap (by omega) _ loop

/-- `Deallocate` on a map that marks all data sectors clears exactly these. -/
theorem deallocateSectors_spec {freeMap : Bitmap} (listed : h.Listed freeMap.numBits) {n : Nat}
    (hn : (n : Int) ≤ h.numSectors) (marked : ∀ s ∈ h.sectors, freeMap.bit s = true) :
    ∃ freeMap', h.deallocateSectors freeMap n = .ok freeMap' ∧
      freeMap'.numBits = freeMap.numBits ∧
      ∀ i, freeMap'.bit i = true ↔ freeMap.bit i = true ∧ i ∉ h.firstSectors n := by
  induction n with
  | zero => exact ⟨freeMap, rfl, rfl, by simp [firstSectors]⟩
  | succ n ih =>
    obtain ⟨freeMap', run, size', bits⟩ := ih (by omega)
    have hk : (n : Int) < h.numSectors := by omega
    have direct := listed.direct
    obtain ⟨entry, inside⟩ := listed.entries n hk
    have range : h.sectorAt n < freeMap'.numBits := by
      rw [size']
      exact inside
    have set : freeMap'.bit (h.sectorAt n) = true := by
      rw [bits]
      refine ⟨marked _ (Valid.sectorAt_mem hk), fun member => ?_⟩
      obtain ⟨k, hkn, same⟩ := List.mem_map.mp member
      rw [List.mem_range] at hkn
      have := List.inj_on_of_nodup_map listed.distinct (List.mem_range.mpr (by omega))
        (List.mem_range.mpr (by omega)) same
      omega
    refine ⟨freeMap'.cleared (h.sectorAt n), ?_, size', fun i => ?_⟩
    · simp only [deallocateSectors, run, Exec.ok_bind, dataSectors_inside (by omega : n < NumDirect)]
      rw [entry, Bitmap.test_inRange range, Exec.ok_bind, set, check_true rfl,
        Exec.ok_bind, Bitmap.clear_inRange range]
    · rw [Bitmap.bit_cleared, firstSectors_succ, List.mem_append, List.mem_singleton]
      simp only [Bool.and_eq_true, bits i, Bool.not_eq_true', decide_eq_false_iff_not]
      tauto

theorem deallocate_listed {freeMap : Bitmap} (listed : h.Listed freeMap.numBits)
    (marked : ∀ s ∈ h.sectors, freeMap.bit s = true) :
    ∃ freeMap', h.deallocate freeMap = .ok freeMap' ∧ freeMap'.numBits = freeMap.numBits ∧
      ∀ i, freeMap'.bit i = true ↔ freeMap.bit i = true ∧ i ∉ h.sectors := by
  by_cases none : h.numSectors < 0
  · have zero : h.numSectors.toNat = 0 := by omega
    unfold deallocate sectors
    rw [zero]
    exact ⟨freeMap, rfl, rfl, by simp⟩
  · exact deallocateSectors_spec listed (by omega) marked

theorem deallocate_spec (v : h.Valid) {freeMap : Bitmap} (size : freeMap.numBits = NumSectors)
    (marked : ∀ s ∈ h.sectors, freeMap.bit s = true) :
    ∃ freeMap', h.deallocate freeMap = .ok freeMap' ∧ freeMap'.numBits = NumSectors ∧
      ∀ i, freeMap'.bit i = true ↔ freeMap.bit i = true ∧ i ∉ h.sectors := by
  obtain ⟨freeMap', run, size', bits⟩ := deallocate_listed (size ▸ v.listed) marked
  exact ⟨freeMap', run, size'.trans size, bits⟩

/-- The same in terms of the bits. -/
theorem deallocate_clears {freeMap : Bitmap} (listed : h.Listed freeMap.numBits)
    (marked : ∀ s ∈ h.sectors, freeMap.bit s = true) :
    ∃ freeMap', h.deallocate freeMap = .ok freeMap' ∧ freeMap'.numBits = freeMap.numBits ∧
      (∀ s ∈ h.sectors, freeMap'.bit s = false) ∧
      ∀ i ∉ h.sectors, freeMap'.bit i = freeMap.bit i := by
  obtain ⟨freeMap', run, size, cleared⟩ := deallocate_listed listed marked
  refine ⟨freeMap', run, size, fun s hs => ?_, fun i hi => ?_⟩
  · rw [← Bool.not_eq_true, cleared s]
    exact fun both => both.2 hs
  · rw [Bool.eq_iff_iff, cleared i]
    exact and_iff_left hi

/-- The entries of the header are the sectors in their order. -/
theorem Listed.dataSectors_listed {bound k s : Nat} (listed : h.Listed bound)
    (found : h.sectors[k]? = some s) : h.dataSectors k = .ok (s : Int) := by
  have range : k < h.numSectors.toNat := by
    have inside := (List.getElem?_eq_some_iff.mp found).1
    unfold sectors at inside
    rwa [List.length_map, List.length_range] at inside
  have direct := listed.direct
  have value : h.sectorAt k = s := by
    unfold sectors at found
    rw [List.getElem?_map, List.getElem?_range range] at found
    exact Option.some.inj found
  rw [dataSectors_inside (by omega), (listed.entries k (by omega)).1, value]

theorem Listed.lt_of_mem {bound s : Nat} (listed : h.Listed bound) (member : s ∈ h.sectors) :
    s < bound := by
  obtain ⟨k, hk, rfl⟩ := List.mem_map.mp member
  rw [List.mem_range] at hk
  exact (listed.entries k (by omega)).2

/-- `Allocate` and `Deallocate` on a free map of any size. `Allocate` returns TRUE exactly if
there is a clear bit for every sector of the file; it takes that many, all different, and
changes no other bit. `Deallocate` gives them back, whatever became of the other bits. -/
theorem allocate_deallocate (h : FileHeader) (freeMap : Bitmap)
    (small : freeMap.numBits ≤ 2147483647) (fileSize : Int) (low : 0 ≤ fileSize)
    (max : fileSize ≤ MaxFileSize) :
    ∃ enough h' freeMap', h.allocate freeMap fileSize = .ok (enough, h', freeMap') ∧
      (enough = true ↔ (fileSize + (SectorSize - 1)) / SectorSize ≤ freeMap.numClear) ∧
      (enough = false → freeMap' = freeMap) ∧
      (enough = true →
        h'.sectors.length = (fileSize + (SectorSize - 1)) / SectorSize ∧ h'.sectors.Nodup ∧
        (∀ k s : Nat, h'.sectors[k]? = some s → h'.dataSectors k = .ok s) ∧
        (∀ s ∈ h'.sectors, s < freeMap.numBits ∧ freeMap.bit s = false ∧ freeMap'.bit s = true) ∧
        (∀ i ∉ h'.sectors, freeMap'.bit i = freeMap.bit i) ∧
        freeMap'.numBits = freeMap.numBits ∧
        (∀ later : Bitmap, later.numBits = freeMap.numBits →
          (∀ s ∈ h'.sectors, later.bit s = freeMap'.bit s) →
          ∃ after, h'.deallocate later = .ok after ∧ after.numBits = freeMap.numBits ∧
            (∀ s ∈ h'.sectors, after.bit s = false) ∧
            (∀ i ∉ h'.sectors, after.bit i = later.bit i)) ∧
        ∃ after, h'.deallocate freeMap' = .ok after ∧ ∀ i, after.bit i = freeMap.bit i) := by
  rw [← divRoundUp_nonneg low]
  have nonneg : 0 ≤ divRoundUp fileSize SectorSize := by
    rw [divRoundUp_nonneg low]
    unfold SectorSize
    omega
  rcases h.allocate_listed freeMap fileSize small (by omega) max with ⟨full, h', run⟩ | ⟨room, done⟩
  · refine ⟨false, h', freeMap, run, ?_, fun _ => rfl, ?_⟩
    · exact iff_of_false Bool.false_ne_true (by omega)
    · intro enough
      cases enough
  · obtain ⟨h', freeMap', run, listed, bytes, sectors, size, clear, bits, -⟩ := done
    have taken : ∀ s ∈ h'.sectors, freeMap'.bit s = true := fun s hs => (bits s).mpr (.inl hs)
    have kept : ∀ i ∉ h'.sectors, freeMap'.bit i = freeMap.bit i := by
      intro i hi
      rw [Bool.eq_iff_iff, bits i]
      exact or_iff_right hi
    refine ⟨true, h', freeMap', run, iff_of_true rfl room, ?_, fun _ => ⟨?_, listed.distinct,
      fun k s found => listed.dataSectors_listed found,
      fun s hs => ⟨listed.lt_of_mem hs, clear s hs, taken s hs⟩, kept, size, ?_, ?_⟩⟩
    · intro enough
      cases enough
    · unfold FileHeader.sectors
      rw [List.length_map, List.length_range, sectors]
      omega
    · intro later same marked
      obtain ⟨after, run, size, cleared, others⟩ := deallocate_clears (same.symm ▸ listed)
        (fun s hs => (marked s hs).trans (taken s hs))
      exact ⟨after, run, size.trans same, cleared, others⟩
    · obtain ⟨after, run, -, cleared, others⟩ := deallocate_clears (size.symm ▸ listed) taken
      refine ⟨after, run, fun i => ?_⟩
      by_cases hi : i ∈ h'.sectors
      · rw [cleared i hi, clear i hi]
      · rw [others i hi, kept i hi]

/-- A file of two sectors on an empty map of 40 bits. -/
theorem allocate_deallocate_two :
    ∃ h' freeMap', (⟨fun _ => 0⟩ : FileHeader).allocate (Bitmap.new 40) 200 =
        .ok (true, h', freeMap') ∧ h'.sectors.length = (2 : Int) ∧
      ∃ after, h'.deallocate freeMap' = .ok after ∧
        ∀ i, after.bit i = (Bitmap.new 40).bit i := by
  obtain ⟨enough, h', freeMap', run, iff, -, done⟩ :=
    allocate_deallocate ⟨fun _ => 0⟩ (Bitmap.new 40) (by decide) 200 (by decide) (by decide)
  have taken : enough = true := iff.mpr (by rw [Bitmap.numClear_new]; decide)
  subst taken
  obtain ⟨length, -, -, -, -, -, -, restored⟩ := done rfl
  exact ⟨h', freeMap', run, length, restored⟩

end FileHeader

end NachOS.Filesys
