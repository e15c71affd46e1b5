import NachOS.Filesys.OpenFile

/-!
# Files as flat byte arrays

What an open file is for: a byte array of fixed length with an implicit position.
The disk-based `OpenFile` refines it. The relation is an equation: the array is
read off the disk through the header, the position is `seekPosition`.
-/
namespace NachOS.Filesys
open NachOS.Lib NachOS.Library

def INT_MAX : Int := 2147483647

/-- The calls of class `OpenFile`. -/
inductive FileOp where
  | seek (position : Int)
  | read (numBytes : Int)
  | write (data : Buf) (numBytes : Int)
  | readAt (numBytes position : Int)
  | writeAt (data : Buf) (numBytes position : Int)
  | length
  | getCurrentPos

/-- What a call gives its caller: the returned `int` (0 for `Seek`, which returns
nothing) and the bytes delivered to the buffer. -/
structure Result where
  value : Int
  bytes : List Byte
  deriving DecidableEq

/-- The first `n` bytes of a buffer. -/
def bytesOf (data : Buf) (n : Nat) : List Byte := (List.range n).map data

@[simp] theorem bytesOf_length (data : Buf) (n : Nat) : (bytesOf data n).length = n := by
  simp [bytesOf]

theorem bytesOf_getElem? {data : Buf} {n i : Nat} (h : i < n) :
    (bytesOf data n)[i]? = some (data i) := by
  simp [bytesOf, h]

theorem bytesOf_none {data : Buf} {n i : Nat} (h : n ≤ i) : (bytesOf data n)[i]? = none := by
  simp [bytesOf, h]

structure FlatFile where
  bytes : List Byte
  position : Int

namespace FlatFile

/-- How many bytes a request for `numBytes` at `position` transfers. -/
def count (f : FlatFile) (numBytes position : Int) : Nat :=
  (min numBytes (f.bytes.length - position)).toNat

def slice (f : FlatFile) (position n : Nat) : List Byte := (f.bytes.drop position).take n

/-- The array with `data` in place of the bytes from `position` on. -/
def replace (f : FlatFile) (position : Nat) (data : List Byte) : FlatFile :=
  { f with bytes := f.bytes.take position ++ data ++ f.bytes.drop (position + data.length) }

def readAt (f : FlatFile) (numBytes position : Int) : Result :=
  ⟨f.count numBytes position, f.slice position.toNat (f.count numBytes position)⟩

def writeAt (f : FlatFile) (data : Buf) (numBytes position : Int) : Result × FlatFile :=
  (⟨f.count numBytes position, []⟩,
    f.replace position.toNat (bytesOf data (f.count numBytes position)))

def advance (f : FlatFile) (n : Int) : FlatFile := { f with position := f.position + n }

def step (f : FlatFile) : FileOp → Result × FlatFile
  | .seek position => (⟨0, []⟩, { f with position })
  | .read numBytes =>
    let result := f.readAt numBytes f.position
    (result, f.advance result.value)
  | .write data numBytes =>
    let (result, f) := f.writeAt data numBytes f.position
    (result, f.advance result.value)
  | .readAt numBytes position => (f.readAt numBytes position, f)
  | .writeAt data numBytes position => f.writeAt data numBytes position
  | .length => (⟨f.bytes.length, []⟩, f)
  | .getCurrentPos => (⟨f.position, []⟩, f)

def run (f : FlatFile) : List FileOp → List Result × FlatFile
  | [] => ([], f)
  | op :: ops =>
    let (result, f) := f.step op
    let (results, f) := f.run ops
    (result :: results, f)

/-- The requests considered: positions are indices of the array, and a request
does not reach past `INT_MAX`. -/
def Admissible (f : FlatFile) : FileOp → Prop
  | .seek position => 0 ≤ position ∧ position ≤ INT_MAX
  | .read numBytes | .write _ numBytes => f.position + numBytes ≤ INT_MAX
  | .readAt numBytes position | .writeAt _ numBytes position =>
    0 ≤ position ∧ position + numBytes ≤ INT_MAX
  | .length | .getCurrentPos => True

def AdmissibleRun (f : FlatFile) : List FileOp → Prop
  | [] => True
  | op :: ops => f.Admissible op ∧ (f.step op).2.AdmissibleRun ops

theorem replace_getElem? {f : FlatFile} {position : Nat} {data : List Byte}
    (h : position + data.length ≤ f.bytes.length) (i : Nat) :
    (f.replace position data).bytes[i]? =
      if position ≤ i ∧ i < position + data.length then data[i - position]? else f.bytes[i]? := by
  have front : (f.bytes.take position).length = position := by
    rw [List.length_take]
    omega
  unfold replace
  simp only [List.append_assoc, List.getElem?_append, front]
  by_cases low : i < position
  · rw [if_pos low, if_neg (by omega), List.getElem?_take_of_lt low]
  · rw [if_neg low]
    by_cases high : i < position + data.length
    · rw [if_pos (by omega), if_pos (by omega)]
    · rw [if_neg (by omega), if_neg (by omega), List.getElem?_drop]
      congr 1
      omega

end FlatFile

namespace OpenFile

/-- One call, with the contents `heap` of the buffer a `WriteAt` allocates. -/
def step (f : OpenFile) (disk : Disk) (heap : Buf) : FileOp → Exec (Result × OpenFile × Disk)
  | .seek position => .ok (⟨0, []⟩, f.seek position, disk)
  | .read numBytes => do
    let (result, data, f) ← f.read disk numBytes
    .ok (⟨result, bytesOf data result.toNat⟩, f, disk)
  | .write data numBytes => do
    let (result, disk, f) ← f.write disk heap data numBytes
    .ok (⟨result, []⟩, f, disk)
  | .readAt numBytes position => do
    let (result, data) ← readAt disk f.hdr numBytes position
    .ok (⟨result, bytesOf data result.toNat⟩, f, disk)
  | .writeAt data numBytes position => do
    let (result, disk) ← writeAt disk f.hdr heap data numBytes position
    .ok (⟨result, []⟩, f, disk)
  | .length => .ok (⟨f.length, []⟩, f, disk)
  | .getCurrentPos => .ok (⟨f.getCurrentPos, []⟩, f, disk)

def run (f : OpenFile) (disk : Disk) : List (Buf × FileOp) → Exec (List Result × OpenFile × Disk)
  | [] => .ok ([], f, disk)
  | (heap, op) :: ops => do
    let (result, f, disk) ← f.step disk heap op
    let (results, f, disk) ← f.run disk ops
    .ok (result :: results, f, disk)

/-- The array an open file stands for. -/
def contents (h : FileHeader) (disk : Disk) : List Byte :=
  bytesOf (h.byteAt disk) h.numBytes.toNat

def flat (f : OpenFile) (disk : Disk) : FlatFile := ⟨contents f.hdr disk, f.seekPosition⟩

variable {disk : Disk} {h : FileHeader}

@[simp] theorem contents_length (h : FileHeader) (disk : Disk) :
    (contents h disk).length = h.numBytes.toNat := by
  simp [contents]

theorem contents_congr (v : h.Valid) {disk' : Disk} (same : ∀ x ∈ h.sectors, disk' x = disk x) :
    contents h disk' = contents h disk := by
  apply List.map_congr_left
  intro a ha
  have := List.mem_range.mp ha
  exact byteAt_congr v same (by omega)

theorem count_flat (f : OpenFile) {numBytes position : Int} (nonneg : 0 ≤ position) :
    (f.flat disk).count numBytes position = (min numBytes (f.hdr.numBytes - position)).toNat := by
  unfold FlatFile.count flat
  rw [contents_length]
  omega

theorem readAt_flat (disk : Disk) {f : OpenFile} (v : f.hdr.Valid) {numBytes position : Int}
    (nonneg : 0 ≤ position) (fits : position + numBytes ≤ INT_MAX) :
    ∃ data, readAt disk f.hdr numBytes position =
        .ok ((f.flat disk).count numBytes position, data) ∧
      bytesOf data ((f.flat disk).count numBytes position) =
        (f.flat disk).slice position.toNat ((f.flat disk).count numBytes position) := by
  rw [count_flat f nonneg]
  obtain ⟨p, rfl⟩ := Int.eq_ofNat_of_zero_le nonneg
  by_cases nothing : numBytes ≤ 0 ∨ (p : Int) ≥ f.hdr.fileLength
  · have zero : (min numBytes (f.hdr.numBytes - p)).toNat = 0 := by
      unfold FileHeader.fileLength at nothing
      omega
    refine ⟨fun _ => 0, ?_, ?_⟩
    · unfold readAt
      rw [if_pos nothing, zero]
      rfl
    · simp [zero, bytesOf, FlatFile.slice]
  · have bounds : 0 < numBytes ∧ (p : Int) < f.hdr.numBytes := by
      unfold FileHeader.fileLength at nothing
      omega
    have r := Request.of_bounds v bounds.1 bounds.2 (by unfold INT_MAX at fits; omega)
    obtain ⟨data, run, bytes⟩ := readAt_request disk v r
    refine ⟨data, run, ?_⟩
    have inside := r.inside
    apply List.ext_getElem?
    intro j
    unfold FlatFile.slice
    rw [List.getElem?_take, List.getElem?_drop, Int.toNat_natCast]
    by_cases hj : j < (min numBytes (f.hdr.numBytes - p)).toNat
    · rw [if_pos hj, bytesOf_getElem? hj, bytes j hj, flat, contents, bytesOf_getElem? (by omega)]
    · rw [if_neg hj, bytesOf_none (by omega)]

theorem writeAt_flat (disk : Disk) {f : OpenFile} (v : f.hdr.Valid) {numBytes position : Int}
    (nonneg : 0 ≤ position) (fits : position + numBytes ≤ INT_MAX) (heap data : Buf) :
    ∃ disk', writeAt disk f.hdr heap data numBytes position =
        .ok ((f.flat disk).count numBytes position, disk') ∧
      contents f.hdr disk' = ((f.flat disk).replace position.toNat
        (bytesOf data ((f.flat disk).count numBytes position))).bytes ∧
      ∀ s, s ∉ f.hdr.sectors → disk' s = disk s := by
  rw [count_flat f nonneg]
  obtain ⟨p, rfl⟩ := Int.eq_ofNat_of_zero_le nonneg
  by_cases nothing : numBytes ≤ 0 ∨ (p : Int) ≥ f.hdr.fileLength
  · have zero : (min numBytes (f.hdr.numBytes - p)).toNat = 0 := by
      unfold FileHeader.fileLength at nothing
      omega
    refine ⟨disk, ?_, ?_, fun _ _ => rfl⟩
    · unfold writeAt
      rw [if_pos nothing, zero]
      rfl
    · simp [zero, bytesOf, FlatFile.replace, flat]
  · have bounds : 0 < numBytes ∧ (p : Int) < f.hdr.numBytes := by
      unfold FileHeader.fileLength at nothing
      omega
    have r := Request.of_bounds v bounds.1 bounds.2 (by unfold INT_MAX at fits; omega)
    generalize (min numBytes (f.hdr.numBytes - p)).toNat = n at r
    obtain ⟨disk', run, frame, bytes⟩ := writeAt_request disk v r heap data
    refine ⟨disk', run, ?_, frame⟩
    have inside := r.inside
    apply List.ext_getElem?
    intro i
    have fit : p + (bytesOf data n).length ≤ (f.flat disk).bytes.length := by
      rw [bytesOf_length, flat, contents_length]
      omega
    rw [Int.toNat_natCast, FlatFile.replace_getElem? fit, bytesOf_length, flat]
    by_cases hi : i < f.hdr.numBytes.toNat
    · rw [contents, contents, bytesOf_getElem? hi, bytesOf_getElem? hi, bytes i (by omega)]
      split
      next within => rw [bytesOf_getElem? (by omega)]
      next => rfl
    · rw [if_neg (by omega), contents, contents, bytesOf_none (by omega), bytesOf_none (by omega)]

/-- The implicit position of an open file is an `int` that is not negative. -/
def Positioned (f : OpenFile) : Prop := 0 ≤ f.seekPosition ∧ f.seekPosition ≤ INT_MAX

/-- `seekPosition += result` does not overflow. -/
theorem seek_add_count (disk : Disk) {f : OpenFile} (v : f.hdr.Valid)
    (positioned : f.Positioned) (numBytes : Int) {next : Int}
    (h : next = f.seekPosition + (f.flat disk).count numBytes f.seekPosition) :
    int32 next = next ∧ 0 ≤ next ∧ next ≤ INT_MAX := by
  have bound := v.length_le
  obtain ⟨low, high⟩ := positioned
  rw [count_flat f low] at h
  unfold MaxFileSize NumDirect SectorSize at bound
  unfold INT_MAX at *
  have small : next ≤ 2147483647 := by omega
  exact ⟨int32_of_range (by omega) small, by omega, small⟩

/-- Each call of the disk-based `OpenFile` is the call on the flat array. -/
theorem step_refines {f : OpenFile} (v : f.hdr.Valid) (nonneg : 0 ≤ f.hdr.numBytes)
    (positioned : f.Positioned) (heap : Buf) {op : FileOp}
    (admissible : (f.flat disk).Admissible op) :
    ∃ result f' disk', f.step disk heap op = .ok (result, f', disk') ∧
      (f.flat disk).step op = (result, f'.flat disk') ∧
      f'.hdr = f.hdr ∧ f'.Positioned ∧ ∀ s, s ∉ f.hdr.sectors → disk' s = disk s := by
  cases op with
  | seek position =>
    exact ⟨_, _, _, rfl, rfl, rfl, admissible, fun _ _ => rfl⟩
  | read numBytes =>
    obtain ⟨data, run, bytes⟩ := readAt_flat disk v positioned.1 admissible
    obtain ⟨wrap, range⟩ := seek_add_count disk v positioned numBytes rfl
    refine ⟨(f.flat disk).readAt numBytes f.seekPosition,
      ⟨f.hdr, f.seekPosition + (f.flat disk).count numBytes f.seekPosition⟩, disk,
      ?_, rfl, rfl, range, fun _ _ => rfl⟩
    simp only [step, read, run, Exec.ok_bind, wrap, Int.toNat_natCast, bytes]
    rfl
  | write data numBytes =>
    obtain ⟨disk', run, bytes, frame⟩ := writeAt_flat disk v positioned.1 admissible heap data
    obtain ⟨wrap, range⟩ := seek_add_count disk v positioned numBytes rfl
    refine ⟨⟨(f.flat disk).count numBytes f.seekPosition, []⟩,
      ⟨f.hdr, f.seekPosition + (f.flat disk).count numBytes f.seekPosition⟩, disk',
      ?_, ?_, rfl, range, frame⟩
    · simp only [step, write, run, Exec.ok_bind, wrap]
    · simp only [flat, bytes]
      rfl
  | readAt numBytes position =>
    obtain ⟨data, run, bytes⟩ := readAt_flat disk v admissible.1 admissible.2
    refine ⟨(f.flat disk).readAt numBytes position, f, disk, ?_, rfl, rfl, positioned,
      fun _ _ => rfl⟩
    simp only [step, run, Exec.ok_bind, Int.toNat_natCast, bytes]
    rfl
  | writeAt data numBytes position =>
    obtain ⟨disk', run, bytes, frame⟩ := writeAt_flat disk v admissible.1 admissible.2
      heap data
    refine ⟨⟨(f.flat disk).count numBytes position, []⟩, f, disk', ?_, ?_, rfl, positioned, frame⟩
    · simp only [step, run, Exec.ok_bind]
    · simp only [flat, bytes]
      rfl
  | length =>
    refine ⟨_, _, _, rfl, ?_, rfl, positioned, fun _ _ => rfl⟩
    simp only [FlatFile.step, flat, contents_length, Int.toNat_of_nonneg nonneg]
    rfl
  | getCurrentPos =>
    exact ⟨_, _, _, rfl, rfl, rfl, positioned, fun _ _ => rfl⟩

/-- A run of calls, by induction over the calls. -/
theorem run_refines {f : OpenFile} {disk : Disk} (valid : f.hdr.Valid) (nonneg : 0 ≤ f.hdr.numBytes)
    (positioned : f.Positioned) {calls : List (Buf × FileOp)}
    (admissible : (f.flat disk).AdmissibleRun (calls.map Prod.snd)) :
    ∃ f' disk', f.run disk calls =
        .ok (((f.flat disk).run (calls.map Prod.snd)).1, f', disk') ∧
      ((f.flat disk).run (calls.map Prod.snd)).2 = f'.flat disk' ∧
      f'.hdr = f.hdr ∧ ∀ s, s ∉ f.hdr.sectors → disk' s = disk s := by
  induction calls generalizing f disk with
  | nil => exact ⟨f, disk, rfl, rfl, rfl, fun _ _ => rfl⟩
  | cons call calls ih =>
    obtain ⟨heap, op⟩ := call
    obtain ⟨first, rest⟩ := admissible
    obtain ⟨result, f₁, disk₁, step, flat₁, hdr₁, positioned₁, frame₁⟩ :=
      step_refines valid nonneg positioned heap first
    rw [flat₁] at rest
    obtain ⟨f₂, disk₂, run, flat₂, hdr₂, frame₂⟩ :=
      ih (hdr₁ ▸ valid) (hdr₁ ▸ nonneg) positioned₁ rest
    refine ⟨f₂, disk₂, ?_, ?_, hdr₂.trans hdr₁, fun s hs => ?_⟩
    · simp only [OpenFile.run, step, Exec.ok_bind, run, List.map_cons, FlatFile.run, flat₁]
    · simp only [List.map_cons, FlatFile.run, flat₁, flat₂]
    · rw [frame₂ s (hdr₁ ▸ hs), frame₁ s hs]

/-- The disk-based `OpenFile` refines a flat byte array: every sequence of calls
returns what the calls on the array return and leaves the file as the array is
left; nothing outside the data sectors of the file changes. -/
theorem openFile_refines_flat (f : OpenFile) (disk : Disk) (valid : f.hdr.Valid)
    (nonneg : 0 ≤ f.hdr.numBytes) (positioned : f.Positioned) (calls : List (Buf × FileOp))
    (admissible : (f.flat disk).AdmissibleRun (calls.map Prod.snd)) :
    ∃ results f' disk', f.run disk calls = .ok (results, f', disk') ∧
      (f.flat disk).run (calls.map Prod.snd) = (results, f'.flat disk') ∧
      f'.hdr = f.hdr ∧ ∀ s, s ∉ f.hdr.sectors → disk' s = disk s := by
  obtain ⟨f', disk', run, array, hdr, frame⟩ := run_refines valid nonneg positioned admissible
  exact ⟨_, f', disk', run, Prod.ext rfl array, hdr, frame⟩

/-- A header of a file of 200 bytes in sectors 5 and 9. -/
def twoSectors : FileHeader :=
  ⟨setInt (setInt (setInt (setInt (fun _ => 0) 0 200) 4 2) 8 5) 12 9⟩

theorem twoSectors_valid : twoSectors.Valid := by
  have count : twoSectors.numSectors = 2 := by decide +kernel
  refine ⟨by decide +kernel, by decide +kernel, fun k hk => ?_, by decide +kernel⟩
  rw [count] at hk
  have : k = 0 ∨ k = 1 := by omega
  rcases this with rfl | rfl <;> decide +kernel

/-- A write across the sector boundary and a read around its start. -/
def boundaryCalls : List (Buf × FileOp) :=
  [(fun _ => 0, .seek 100), (fun _ => 0, .write (fun _ => 1) 60), (fun _ => 0, .readAt 10 95)]

theorem openFile_refines_flat_boundary :
    ∃ results f' disk', (OpenFile.mk twoSectors 0).run (fun _ _ => 7) boundaryCalls =
        .ok (results, f', disk') ∧
      ((OpenFile.mk twoSectors 0).flat fun _ _ => 7).run (boundaryCalls.map Prod.snd) =
        (results, f'.flat disk') ∧ disk' 3 = fun _ => 7 := by
  obtain ⟨results, f', disk', run, flat, _, frame⟩ := openFile_refines_flat
    ⟨twoSectors, 0⟩ (fun _ _ => 7) twoSectors_valid (by decide +kernel) ⟨by decide, by decide⟩
    boundaryCalls
    ⟨⟨by decide, by decide⟩, show (100 : Int) + 60 ≤ INT_MAX by decide,
      ⟨by decide, by decide⟩, trivial⟩
  exact ⟨results, f', disk', run, flat, frame 3 (by decide +kernel)⟩

end OpenFile

end NachOS.Filesys
