import NachOS.Lib.Memory
import Mathlib.Data.List.Nodup
import Mathlib.Data.List.Count

/-!
# Bitmaps (lib/bitmap.cc:21-150)

A bitmap of `numBits` bits kept in 32-bit words; bit `which` is bit `which % 32`
of word `which / 32`. The words are kept as the bytes that a persistent bitmap
copies to and from its file.
-/
namespace NachOS.Library
open NachOS.Lib

def BitsInWord : Nat := 32

structure Bitmap where
  numBits : Nat
  map : Buf

namespace Bitmap

/-- The constructor: every bit is clear. -/
def new (numItems : Nat) : Bitmap := ⟨numItems, fun _ => 0⟩

/-- The offset of the word that holds bit `which`. -/
def wordOf (which : Nat) : Nat := 4 * (which / BitsInWord)

def mask (which : Nat) : BitVec 32 := 1#32 <<< (which % BitsInWord)

/-- The test of `Bitmap::Test` for a bit number that passed its assertion. -/
def bit (m : Bitmap) (which : Nat) : Bool := word m.map (wordOf which) &&& mask which ≠ 0

def marked (m : Bitmap) (which : Nat) : Bitmap :=
  { m with map := setWord m.map (wordOf which) (word m.map (wordOf which) ||| mask which) }

def cleared (m : Bitmap) (which : Nat) : Bitmap :=
  { m with map := setWord m.map (wordOf which) (word m.map (wordOf which) &&& ~~~ mask which) }

def InRange (m : Bitmap) (which : Int) : Prop := 0 ≤ which ∧ which < m.numBits

instance (m : Bitmap) (which : Int) : Decidable (m.InRange which) :=
  inferInstanceAs (Decidable (_ ∧ _))

/-- `Bitmap::Test`. -/
def test (m : Bitmap) (which : Int) : Exec Bool := do
  check (m.InRange which) .assertion
  .ok (m.bit which.toNat)

/-- `Bitmap::Mark`. -/
def mark (m : Bitmap) (which : Int) : Exec Bitmap := do
  check (m.InRange which) .assertion
  let after := m.marked which.toNat
  check (after.bit which.toNat = true) .assertion
  .ok after

/-- `Bitmap::Clear`. -/
def clear (m : Bitmap) (which : Int) : Exec Bitmap := do
  check (m.InRange which) .assertion
  let after := m.cleared which.toNat
  check (after.bit which.toNat = false) .assertion
  .ok after

/-- `Bitmap::FindAndSet`: the first clear bit, now marked, or -1. -/
def findAndSet (m : Bitmap) : Exec (Int × Bitmap) :=
  match (List.range m.numBits).find? (fun i => !m.bit i) with
  | some i => do
    let after ← m.mark i
    .ok (i, after)
  | none => .ok (-1, m)

/-- `Bitmap::NumClear`. -/
def numClear (m : Bitmap) : Nat := (List.range m.numBits).countP (fun i => !m.bit i)

variable {m : Bitmap} {which i : Nat}

theorem getLsbD_mask (i which : Nat) :
    (mask which).getLsbD i = decide (i = which % BitsInWord) := by
  have small : which % BitsInWord < 32 := Nat.mod_lt _ (by decide)
  unfold mask
  simp only [BitVec.getLsbD_shiftLeft, BitVec.getLsbD_one]
  by_cases same : i = which % BitsInWord
  · simp [same, small]
  · by_cases low : i < which % BitsInWord
    · simp [low, same]
    · have : i - which % BitsInWord ≠ 0 := by omega
      simp [this, same]

theorem bit_eq (m : Bitmap) (which : Nat) :
    m.bit which = (word m.map (wordOf which)).getLsbD (which % BitsInWord) := by
  unfold bit
  cases hbit : (word m.map (wordOf which)).getLsbD (which % BitsInWord) with
  | true =>
    rw [decide_eq_true_iff]
    intro zero
    have := congrArg (fun w => w.getLsbD (which % BitsInWord)) zero
    rw [BitVec.getLsbD_and, hbit, getLsbD_mask] at this
    simp at this
  | false =>
    rw [decide_eq_false_iff_not, not_not]
    apply BitVec.eq_of_getLsbD_eq
    intro k _
    rw [BitVec.getLsbD_and, getLsbD_mask]
    by_cases same : k = which % BitsInWord
    · simp [same, hbit]
    · simp [same]

/-- Two bits in the same word are the same bit or at different places. -/
theorem eq_iff_place (i which : Nat) :
    i = which ↔ wordOf i = wordOf which ∧ i % BitsInWord = which % BitsInWord := by
  unfold wordOf BitsInWord
  omega

theorem wordOf_disjoint (h : wordOf i ≠ wordOf which) :
    wordOf i + 4 ≤ wordOf which ∨ wordOf which + 4 ≤ wordOf i := by
  unfold wordOf at *
  omega

theorem bit_congr {m' : Bitmap}
    (h : ∀ a, wordOf which ≤ a → a < wordOf which + 4 → m'.map a = m.map a) :
    m'.bit which = m.bit which := by
  rw [bit_eq, bit_eq, word_congr h]

theorem bit_marked : (m.marked which).bit i = (decide (i = which) || m.bit i) := by
  rw [bit_eq, bit_eq]
  simp only [marked]
  by_cases same : wordOf i = wordOf which
  · rw [same, word_setWord, BitVec.getLsbD_or, getLsbD_mask, Bool.or_comm]
    simp [eq_iff_place i which, same]
  · rw [word_setWord_of_disjoint (wordOf_disjoint same)]
    have : i ≠ which := fun h => same (h ▸ rfl)
    simp [this]

theorem bit_cleared : (m.cleared which).bit i = (!decide (i = which) && m.bit i) := by
  have small : i % BitsInWord < 32 := Nat.mod_lt _ (by decide)
  rw [bit_eq, bit_eq]
  simp only [cleared]
  by_cases same : wordOf i = wordOf which
  · rw [same, word_setWord, BitVec.getLsbD_and, BitVec.getLsbD_not, getLsbD_mask,
      Bool.and_comm]
    simp [eq_iff_place i which, same, small]
  · rw [word_setWord_of_disjoint (wordOf_disjoint same)]
    have : i ≠ which := fun h => same (h ▸ rfl)
    simp [this]

@[simp] theorem bit_new (numItems which : Nat) : (new numItems).bit which = false := by
  rw [bit_eq]
  have zero : word (new numItems).map (wordOf which) = 0 := by
    simp only [new, word]
    rfl
  rw [zero]
  simp

theorem test_inRange {which : Nat} (h : which < m.numBits) : m.test which = .ok (m.bit which) := by
  have inRange : m.InRange which := ⟨by omega, by omega⟩
  simp [test, check_true inRange]

theorem mark_inRange {which : Nat} (h : which < m.numBits) :
    m.mark which = .ok (m.marked which) := by
  have inRange : m.InRange which := ⟨by omega, by omega⟩
  have set : (m.marked which).bit which = true := by simp [bit_marked]
  simp [mark, check_true inRange, check_true set]

theorem clear_inRange {which : Nat} (h : which < m.numBits) :
    m.clear which = .ok (m.cleared which) := by
  have inRange : m.InRange which := ⟨by omega, by omega⟩
  have unset : (m.cleared which).bit which = false := by simp [bit_cleared]
  simp [clear, check_true inRange, check_true unset]

/-- `FindAndSet` marks a clear bit, or there is none. -/
theorem findAndSet_cases (m : Bitmap) :
    (∃ i < m.numBits, m.bit i = false ∧ m.findAndSet = .ok (i, m.marked i)) ∨
    ((∀ i < m.numBits, m.bit i = true) ∧ m.findAndSet = .ok (-1, m)) := by
  unfold findAndSet
  cases found : (List.range m.numBits).find? (fun i => !m.bit i) with
  | some i =>
    have range : i < m.numBits := List.mem_range.mp (List.mem_of_find?_eq_some found)
    have unset := List.find?_some found
    refine .inl ⟨i, range, by simpa using unset, ?_⟩
    simp [mark_inRange range]
  | none =>
    refine .inr ⟨fun i hi => ?_, rfl⟩
    simpa using List.find?_eq_none.mp found i (List.mem_range.mpr hi)

/-- All bits before the one that `FindAndSet` returns are marked. -/
theorem findAndSet_least {m' : Bitmap} (found : m.findAndSet = .ok (i, m')) :
    ∀ j < i, m.bit j = true := by
  unfold findAndSet at found
  cases search : (List.range m.numBits).find? (fun i => !m.bit i) with
  | some k =>
    have range : k < m.numBits := List.mem_range.mp (List.mem_of_find?_eq_some search)
    rw [search] at found
    simp only [mark_inRange range, Exec.ok_bind] at found
    cases found
    intro j hj
    have earlier := (List.find?_range_eq_some.mp search).2.2 j hj
    simpa using earlier
  | none =>
    rw [search] at found
    cases found

theorem numClear_pos : 0 < m.numClear ↔ ∃ i < m.numBits, m.bit i = false := by
  unfold numClear
  rw [List.countP_pos_iff]
  simp

theorem numClear_congr {m' : Bitmap} (size : m'.numBits = m.numBits)
    (h : ∀ i < m.numBits, m'.bit i = m.bit i) : m'.numClear = m.numClear := by
  unfold numClear
  rw [size]
  apply List.countP_congr
  intro i hi
  rw [h i (List.mem_range.mp hi)]

theorem countP_marked {l : List Nat} (nodup : l.Nodup) (member : which ∈ l)
    (unset : m.bit which = false) :
    l.countP (fun i => !(m.marked which).bit i) + 1 = l.countP (fun i => !m.bit i) := by
  induction l with
  | nil => cases member
  | cons j rest ih =>
    obtain ⟨fresh, nodup⟩ := List.nodup_cons.mp nodup
    rcases List.mem_cons.mp member with rfl | member
    · have tail : rest.countP (fun i => !(m.marked which).bit i) =
          rest.countP (fun i => !m.bit i) := by
        apply List.countP_congr
        intro i hi
        have : i ≠ which := fun h => fresh (h ▸ hi)
        simp [bit_marked, this]
      rw [List.countP_cons, List.countP_cons, tail]
      simp [bit_marked, unset]
    · have : j ≠ which := fun h => fresh (h ▸ member)
      have tail := ih nodup member
      simp only [List.countP_cons, bit_marked, this] at tail ⊢
      simp only [decide_false, Bool.false_or]
      omega

theorem numClear_marked (range : which < m.numBits) (unset : m.bit which = false) :
    (m.marked which).numClear + 1 = m.numClear :=
  countP_marked List.nodup_range (List.mem_range.mpr range) unset

@[simp] theorem numClear_new (numItems : Nat) : (new numItems).numClear = numItems := by
  have size : (new numItems).numBits = numItems := rfl
  simp [numClear, size]

end Bitmap

end NachOS.Library
