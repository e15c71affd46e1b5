import NachOS.Filesys.Directory
import NachOS.Filesys.FlatFile
import NachOS.Lib.Component
import Mathlib.Data.Finset.Sort

/-!
# Bitmaps as sets (lib/bitmap.cc:21-139, filesys/pbitmap.cc:38-79)

What a run of `Mark`, `Clear` and `FindAndSet` on a bitmap is for: a set of bit numbers
below `numBits`. `WriteBack` saves the set in a file and `FetchFrom` takes the saved set
back, whatever was done to the bitmap in between.
-/
namespace NachOS.Filesys
open NachOS.Lib NachOS.Library

namespace PersistentBitmap

/-- The loop of the constructor that clears every bit. -/
def clearAll (m : Bitmap) : Nat → Exec Bitmap
  | 0 => .ok m
  | n + 1 => do
    let m ← clearAll m n
    m.clear n

/-- The constructor of `Bitmap`, in memory that held `heap`. -/
def construct (heap : Buf) (numItems : Int) : Exec Bitmap := do
  check (0 < numItems) .assertion
  let numBits := numItems.toNat
  let m : Bitmap := ⟨numBits, fun a => if a < 4 * numWords numBits then 0 else heap a⟩
  clearAll m numBits

/-- `PersistentBitmap::FetchFrom`. -/
def fetchInto (m : Bitmap) (disk : Disk) (file : OpenFile) : Exec Bitmap := do
  let map ← OpenFile.readInto disk file.hdr m.map 0 (4 * numWords m.numBits : Nat) 0
  .ok { m with map }

/-- The file has room for the words of the bitmap. -/
def Fits (file : OpenFile) (numBits : Nat) : Prop :=
  file.hdr.Valid ∧ ((4 * numWords numBits : Nat) : Int) ≤ file.hdr.numBytes

/-- The bitmap that the bytes of the file are. -/
def stored (file : OpenFile) (numBits : Nat) (disk : Disk) : Bitmap :=
  ⟨numBits, file.hdr.byteAt disk⟩

variable {m m' : Bitmap} {disk : Disk} {file : OpenFile} {i : Nat}

theorem word_inside (hi : i < m.numBits) : Bitmap.wordOf i + 4 ≤ 4 * numWords m.numBits := by
  unfold Bitmap.wordOf numWords divRoundUp BitsInWord
  rw [Int.tdiv_eq_ediv_of_nonneg (by omega), Int.tmod_eq_emod_of_nonneg (by omega)]
  split <;> omega

/-- The words decide the bits. -/
theorem bit_of_words (same : ∀ a < 4 * numWords m.numBits, m'.map a = m.map a)
    (hi : i < m.numBits) : m'.bit i = m.bit i := by
  apply Bitmap.bit_congr
  intro a _ high
  exact same a (by have := word_inside hi; omega)

theorem clearAll_spec {n : Nat} (hn : n ≤ m.numBits) :
    ∃ m', clearAll m n = .ok m' ∧ m'.numBits = m.numBits ∧ ∀ i < n, m'.bit i = false := by
  induction n with
  | zero => exact ⟨m, rfl, rfl, fun i hi => absurd hi (Nat.not_lt_zero i)⟩
  | succ n ih =>
    obtain ⟨m', run, size, cleared⟩ := ih (by omega)
    have range : n < m'.numBits := by omega
    refine ⟨m'.cleared n, ?_, size, fun i hi => ?_⟩
    · simp only [clearAll, run, Exec.ok_bind, Bitmap.clear_inRange range]
    · rw [Bitmap.bit_cleared]
      by_cases last : i = n
      · simp [last]
      · rw [cleared i (by omega), Bool.and_false]

theorem construct_spec (heap : Buf) {numItems : Int} (positive : 0 < numItems) :
    ∃ m, construct heap numItems = .ok m ∧ m.numBits = numItems.toNat ∧
      ∀ i < m.numBits, m.bit i = false := by
  obtain ⟨m, run, size, cleared⟩ := clearAll_spec (n := numItems.toNat)
    (m := ⟨numItems.toNat, fun a => if a < 4 * numWords numItems.toNat then 0 else heap a⟩)
    (Nat.le_refl _)
  refine ⟨m, ?_, size, ?_⟩
  · unfold construct
    rw [check_true positive]
    exact run
  · intro i hi
    rw [size] at hi
    exact cleared i hi

theorem writeBack_spec (fits : Fits file m.numBits) (disk : Disk) (heap : Buf) :
    ∃ disk', writeBack m disk file heap = .ok disk' ∧
      ∀ i < m.numBits, (stored file m.numBits disk').bit i = m.bit i := by
  obtain ⟨valid, room⟩ := fits
  obtain ⟨count, disk', run, -, bytes⟩ := OpenFile.writeAt_front disk valid room heap m.map
  refine ⟨disk', ?_, fun i hi => bit_of_words bytes hi⟩
  simp only [writeBack, run, Exec.ok_bind]

theorem fetchInto_spec (fits : Fits file m.numBits) (disk : Disk) :
    ∃ m', fetchInto m disk file = .ok m' ∧ m'.numBits = m.numBits ∧
      ∀ i < m.numBits, m'.bit i = (stored file m.numBits disk).bit i := by
  obtain ⟨valid, room⟩ := fits
  obtain ⟨map, run, bytes, -⟩ := OpenFile.readInto_front disk valid room m.map
  refine ⟨{ m with map }, ?_, rfl, fun i hi => ?_⟩
  · simp only [fetchInto, run, Exec.ok_bind]
  · have same : ∀ a < 4 * numWords m.numBits,
        (stored file m.numBits disk).map a = ({ m with map } : Bitmap).map a :=
      fun a ha => (bytes a ha).symm
    have inside : i < ({ m with map } : Bitmap).numBits := hi
    exact (bit_of_words same inside).symm

end PersistentBitmap

/-- A call on a persistent bitmap; `WriteBack` comes with the buffer of its `WriteAt`. -/
inductive BitmapOp where
  | mark (which : Int)
  | clear (which : Int)
  | findAndSet
  | writeBack (heap : Buf)
  | fetchFrom

namespace BitmapOp

/-- The bits below `numBits` that are not in the set. -/
def absent (numBits : Nat) (s : Finset Nat) : Finset Nat := Finset.range numBits \ s

/-- The set that the bitmap stands for, and the one that its file holds. -/
structure Sets where
  current : Finset Nat
  saved : Finset Nat

def step (file : OpenFile) (op : BitmapOp) (s : Bitmap × Disk) :
    Option (Option Int × (Bitmap × Disk)) :=
  match op with
  | mark which => (s.1.mark which).toOption.map fun m => (none, m, s.2)
  | clear which => (s.1.clear which).toOption.map fun m => (none, m, s.2)
  | findAndSet => s.1.findAndSet.toOption.map fun result => (some result.1, result.2, s.2)
  | writeBack heap =>
    (PersistentBitmap.writeBack s.1 s.2 file heap).toOption.map fun disk => (none, s.1, disk)
  | fetchFrom =>
    (PersistentBitmap.fetchInto s.1 s.2 file).toOption.map fun m => (none, m, s.2)

def spec (numBits : Nat) (op : BitmapOp) (t : Sets) : Option Int × Sets :=
  match op with
  | mark which => (none, { t with current := insert which.toNat t.current })
  | clear which => (none, { t with current := t.current.erase which.toNat })
  | findAndSet =>
    if some_left : (absent numBits t.current).Nonempty then
      let least := (absent numBits t.current).min' some_left
      (some least, { t with current := insert least t.current })
    else
      (some (-1), t)
  | writeBack _ => (none, { t with saved := t.current })
  | fetchFrom => (none, { t with current := t.saved })

/-- What the assertions of `Mark` and `Clear` ask for, and a file that is large enough. -/
def legal (file : OpenFile) (numBits : Nat) (op : BitmapOp) : Prop :=
  match op with
  | mark which => 0 ≤ which ∧ which < numBits
  | clear which => 0 ≤ which ∧ which < numBits
  | findAndSet => True
  | writeBack _ => PersistentBitmap.Fits file numBits
  | fetchFrom => PersistentBitmap.Fits file numBits

/-- A persistent bitmap and its file as two sets of bit numbers. -/
def component (file : OpenFile) (numBits : Nat) :
    Component BitmapOp (Bitmap × Disk) Sets (Option Int) :=
  ⟨step file, spec numBits, fun op _ _ => op.legal file numBits⟩

end BitmapOp

namespace PersistentBitmap
open BitmapOp

/-- The bitmap has `numBits` bits, and those that are set are the members of `s`. -/
def Tells (numBits : Nat) (m : Bitmap) (s : Finset Nat) : Prop :=
  m.numBits = numBits ∧ ∀ i < numBits, m.bit i = decide (i ∈ s)

variable {numBits : Nat} {s : Finset Nat}

theorem Tells.test (tells : Tells numBits m s) (hi : i < numBits) :
    m.test i = .ok (decide (i ∈ s)) := by
  obtain ⟨size, bits⟩ := tells
  rw [Bitmap.test_inRange (by omega), bits i hi]

theorem Tells.marked (tells : Tells numBits m s) (which : Nat) :
    Tells numBits (m.marked which) (insert which s) := by
  obtain ⟨size, bits⟩ := tells
  refine ⟨size, fun i hi => ?_⟩
  rw [Bitmap.bit_marked, bits i hi]
  simp [Finset.mem_insert]

theorem Tells.cleared (tells : Tells numBits m s) (which : Nat) :
    Tells numBits (m.cleared which) (s.erase which) := by
  obtain ⟨size, bits⟩ := tells
  refine ⟨size, fun i hi => ?_⟩
  rw [Bitmap.bit_cleared, bits i hi]
  simp [Finset.mem_erase]

theorem Tells.mem_absent (tells : Tells numBits m s) :
    i ∈ absent numBits s ↔ i < numBits ∧ m.bit i = false := by
  unfold absent
  rw [Finset.mem_sdiff, Finset.mem_range]
  constructor
  · intro ⟨hi, out⟩
    exact ⟨hi, by rw [tells.2 i hi]; exact decide_eq_false out⟩
  · intro ⟨hi, unset⟩
    rw [tells.2 i hi] at unset
    exact ⟨hi, of_decide_eq_false unset⟩

/-- `NumClear` counts the absent bits. -/
theorem Tells.numClear (tells : Tells numBits m s) : m.numClear = (absent numBits s).card := by
  have members : absent numBits s =
      ((List.range numBits).filter (fun i => !m.bit i)).toFinset := by
    ext i
    rw [tells.mem_absent, List.mem_toFinset, List.mem_filter, List.mem_range, Bool.not_eq_true']
  unfold Bitmap.numClear
  rw [members, tells.1, List.toFinset_card_of_nodup (List.nodup_range.filter _),
    List.countP_eq_length_filter]

/-- `FindAndSet` returns and adds the least absent bit. -/
theorem Tells.findAndSet (tells : Tells numBits m s) (left : (absent numBits s).Nonempty) :
    m.findAndSet = .ok (((absent numBits s).min' left : Nat),
      m.marked ((absent numBits s).min' left)) := by
  rcases m.findAndSet_cases with ⟨i, hi, unset, run⟩ | ⟨full, -⟩
  · have member : i ∈ absent numBits s := tells.mem_absent.mpr ⟨by rw [← tells.1]; exact hi, unset⟩
    have least : (absent numBits s).min' left = i := by
      apply Nat.le_antisymm (Finset.min'_le _ _ member)
      by_contra above
      have set := Bitmap.findAndSet_least run _ (Nat.lt_of_not_le above)
      have clear := (tells.mem_absent.mp (Finset.min'_mem _ left)).2
      rw [set] at clear
      cases clear
    rw [least]
    exact run
  · obtain ⟨i, member⟩ := left
    obtain ⟨hi, unset⟩ := tells.mem_absent.mp member
    rw [full i (by rw [tells.1]; exact hi)] at unset
    cases unset

/-- `FindAndSet` returns -1 when no bit is absent. -/
theorem Tells.findAndSet_full (tells : Tells numBits m s) (full : ¬ (absent numBits s).Nonempty) :
    m.findAndSet = .ok (-1, m) := by
  rcases m.findAndSet_cases with ⟨i, hi, unset, -⟩ | ⟨-, run⟩
  · exact absurd ⟨i, tells.mem_absent.mpr ⟨by rw [← tells.1]; exact hi, unset⟩⟩ full
  · exact run

/-- `FindAndSet` takes the least absent bit, and fails exactly when there is none. -/
theorem Tells.findAndSet_answer (tells : Tells numBits m s) :
    ∃ which m', m.findAndSet = .ok (which, m') ∧
      (which = -1 ↔ ∀ i < numBits, i ∈ s) ∧
      (which ≠ -1 → ∃ least : Nat, which = least ∧ least < numBits ∧ least ∉ s ∧
        (∀ i < least, i ∈ s) ∧ Tells numBits m' (insert least s)) := by
  by_cases left : (absent numBits s).Nonempty
  · have member := Finset.min'_mem _ left
    obtain ⟨inside, out⟩ := Finset.mem_sdiff.mp member
    rw [Finset.mem_range] at inside
    refine ⟨_, _, tells.findAndSet left, ?_, fun _ => ⟨_, rfl, inside, out, ?_, tells.marked _⟩⟩
    · constructor
      · intro negative
        omega
      · intro full
        exact absurd (full _ inside) out
    · intro i below
      by_contra missing
      have other : i ∈ absent numBits s := by
        apply Finset.mem_sdiff.mpr
        exact ⟨Finset.mem_range.mpr (by omega), missing⟩
      have := Finset.min'_le _ _ other
      omega
  · refine ⟨-1, m, tells.findAndSet_full left, ?_, fun some => absurd rfl some⟩
    refine iff_of_true rfl ?_
    intro i hi
    by_contra missing
    exact left ⟨i, Finset.mem_sdiff.mpr ⟨Finset.mem_range.mpr hi, missing⟩⟩

/-- The bitmap and its file, each with its set. -/
def Related (file : OpenFile) (numBits : Nat) (s : Bitmap × Disk) (t : Sets) : Prop :=
  Tells numBits s.1 t.current ∧ Tells numBits (stored file numBits s.2) t.saved

theorem bitmapOp_simulates (_ : Nat) (op : BitmapOp) (s : Bitmap × Disk) (t : Sets)
    (related : Related file numBits s t) (legal : op.legal file numBits) :
    ∃ s', op.step file s = some ((op.spec numBits t).1, s') ∧
      Related file numBits s' (op.spec numBits t).2 := by
  obtain ⟨m, disk⟩ := s
  obtain ⟨current, saved⟩ := related
  simp only at current saved
  have size : m.numBits = numBits := current.1
  cases op with
  | mark which =>
    obtain ⟨low, high⟩ := legal
    have whole : which = which.toNat := (Int.toNat_of_nonneg low).symm
    have run : m.mark which = .ok (m.marked which.toNat) := by
      rw [whole]
      exact Bitmap.mark_inRange (by omega)
    exact ⟨(m.marked which.toNat, disk), by simp [step, spec, run, Except.toOption],
      current.marked _, saved⟩
  | clear which =>
    obtain ⟨low, high⟩ := legal
    have whole : which = which.toNat := (Int.toNat_of_nonneg low).symm
    have run : m.clear which = .ok (m.cleared which.toNat) := by
      rw [whole]
      exact Bitmap.clear_inRange (by omega)
    exact ⟨(m.cleared which.toNat, disk), by simp [step, spec, run, Except.toOption],
      current.cleared _, saved⟩
  | findAndSet =>
    by_cases left : (absent numBits t.current).Nonempty
    · have run := current.findAndSet left
      refine ⟨(m.marked ((absent numBits t.current).min' left), disk), ?_, ?_⟩
      · simp [step, spec, run, left, Except.toOption]
      · simp only [spec, left, dite_true]
        exact ⟨current.marked _, saved⟩
    · have run := current.findAndSet_full left
      refine ⟨(m, disk), ?_, ?_⟩
      · simp [step, spec, run, left, Except.toOption]
      · simp only [spec, left, dite_false]
        exact ⟨current, saved⟩
  | writeBack heap =>
    have fits : Fits file m.numBits := by
      rw [size]
      exact legal
    obtain ⟨disk', run, kept⟩ := writeBack_spec fits disk heap
    refine ⟨(m, disk'), by simp [step, spec, run, Except.toOption], current, rfl, ?_⟩
    intro i hi
    rw [← size] at hi ⊢
    rw [kept i hi]
    rw [size] at hi
    exact current.2 i hi
  | fetchFrom =>
    have fits : Fits file m.numBits := by
      rw [size]
      exact legal
    obtain ⟨m', run, size', kept⟩ := fetchInto_spec fits disk
    refine ⟨(m', disk), by simp [step, spec, run, Except.toOption], ⟨size'.trans size, ?_⟩, saved⟩
    intro i hi
    have inside : i < m.numBits := by omega
    rw [kept i inside, size]
    exact saved.2 i hi

/-- The set that the file holds before anything is written to it. -/
def initial (file : OpenFile) (numBits : Nat) (disk : Disk) : Sets :=
  ⟨∅, (Finset.range numBits).filter fun i => (stored file numBits disk).bit i = true⟩

theorem related_initial (size : m.numBits = numBits) (clear : ∀ i < numBits, m.bit i = false)
    (file : OpenFile) (disk : Disk) :
    Related file numBits (m, disk) (initial file numBits disk) := by
  constructor
  · refine ⟨size, fun i hi => ?_⟩
    rw [clear i hi]
    rfl
  · refine ⟨rfl, fun i hi => ?_⟩
    simp [initial, hi]

/-- A run of calls on a new bitmap: none of them aborts, `Test` tells the set that the calls
define, `NumClear` counts what is not in it and `FindAndSet` takes the least of that. -/
theorem bitmap_run_tells (heap : Buf) {numItems : Int} (positive : 0 < numItems)
    (file : OpenFile) (disk : Disk) (ops : List BitmapOp)
    (legal : ∀ op ∈ ops, op.legal file numItems.toNat) :
    ∃ m₀ m disk' answers t, construct heap numItems = .ok m₀ ∧
      (component file numItems.toNat).specRun ops (initial file numItems.toNat disk) =
        (answers, t) ∧
      (component file numItems.toNat).run ops (m₀, disk) = some (answers, m, disk') ∧
      m.numBits = numItems ∧
      (∀ i < m.numBits, m.test i = .ok (decide (i ∈ t.current))) ∧
      m.numClear = (absent m.numBits t.current).card ∧
      ∃ which m', m.findAndSet = .ok (which, m') ∧
        (which = -1 ↔ ∀ i < m.numBits, i ∈ t.current) ∧
        (which ≠ -1 → ∃ least : Nat, which = least ∧ least < m.numBits ∧ least ∉ t.current ∧
          (∀ i < least, i ∈ t.current) ∧
          ∀ i < m.numBits, m'.test i = .ok (decide (i ∈ insert least t.current))) := by
  obtain ⟨m₀, made, size, clear⟩ := construct_spec heap positive
  rw [size] at clear
  obtain ⟨⟨m, disk'⟩, run, current, -⟩ := Component.refines (C := component file numItems.toNat)
    (R := fun _ => Related file numItems.toNat) bitmapOp_simulates ops
    (related_initial size clear file disk) (.of_forall (fun op member _ _ => legal op member) _ _)
  have size' : m.numBits = numItems.toNat := current.1
  refine ⟨m₀, m, disk', _, _, made, rfl, run, by omega, ?_⟩
  rw [size']
  refine ⟨fun i hi => current.test hi, current.numClear, ?_⟩
  obtain ⟨which, m', found, full, least⟩ := current.findAndSet_answer
  refine ⟨which, m', found, full, ?_⟩
  intro some
  obtain ⟨k, answer, inside, out, below, after⟩ := least some
  exact ⟨k, answer, inside, out, below, fun i hi => after.test hi⟩

/-- Bit 32 of 33 is the only one of its word; clearing it is undone by `FetchFrom`. -/
theorem bitmap_run_tells_partial_word :
    ∃ m₀ m disk', construct (fun _ => 255) 33 = .ok m₀ ∧
      (component ⟨OpenFile.twoSectors, 0⟩ 33).run
        [.mark 32, .findAndSet, .writeBack (fun _ => 9), .clear 32, .fetchFrom, .findAndSet]
        (m₀, fun _ _ => 0) = some ([none, some 0, none, none, none, some 1], m, disk') ∧
      m.test 32 = .ok true ∧ m.numClear = 30 := by
  have fits : Fits ⟨OpenFile.twoSectors, 0⟩ 33 := ⟨OpenFile.twoSectors_valid, by decide +kernel⟩
  obtain ⟨m₀, m, disk', answers, t, made, spec, run, size, test, count, -⟩ :=
    bitmap_run_tells (fun _ => 255) (show (0 : Int) < 33 by decide) ⟨OpenFile.twoSectors, 0⟩
      (fun _ _ => 0)
      [.mark 32, .findAndSet, .writeBack (fun _ => 9), .clear 32, .fetchFrom, .findAndSet]
      (by simp [legal, fits])
  have size : m.numBits = 33 := by omega
  have answered : answers = [none, some 0, none, none, none, some 1] := by
    apply (congrArg Prod.fst spec).symm.trans
    decide +kernel
  have current : t.current = {0, 1, 32} := by
    apply (congrArg (fun result => result.2.current) spec).symm.trans
    decide +kernel
  rw [answered] at run
  rw [size, current] at test count
  exact ⟨m₀, m, disk', made, run, test 32 (by decide), count⟩

end PersistentBitmap

end NachOS.Filesys
