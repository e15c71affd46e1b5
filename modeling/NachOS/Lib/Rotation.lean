import Mathlib.Data.Int.ModEq
import Mathlib.Order.Bounds.Basic
import Mathlib.Tactic.Ring

/-!
# Boundaries and rotations

Time is divided into slots of `n` units, and the slots are numbered around a circle of `m`.
The first boundary from a time on, and the end of the first slot with a given number, as
least elements.
-/
namespace NachOS.Lib

variable {n m a target : Int}

theorem dvd_roundUp (n a : Int) : n ∣ a + -a % n := by
  refine ⟨-(-a / n), ?_⟩
  have split := Int.emod_add_mul_ediv (-a) n
  rw [Int.mul_neg]
  omega

/-- The first boundary at or after `a`. -/
theorem isLeast_roundUp (positive : 0 < n) : IsLeast {t | n ∣ t ∧ a ≤ t} (a + -a % n) := by
  have low := Int.emod_nonneg (-a) (ne_of_gt positive)
  have high := Int.emod_lt_of_pos (-a) positive
  constructor
  · exact ⟨dvd_roundUp n a, by omega⟩
  · rintro t ⟨boundary, after⟩
    by_contra before
    have gap : n ∣ a + -a % n - t := Int.dvd_sub (dvd_roundUp n a) boundary
    have wide := Int.le_of_dvd (by omega) gap
    omega

/-- The end of the first slot from the boundary `a` on that has the number `target`. -/
theorem isLeast_rotation (positive : 0 < n) (around : 0 < m) (boundary : n ∣ a) :
    IsLeast {t | n ∣ t ∧ a + n ≤ t ∧ t / n - 1 ≡ target [ZMOD m]}
      (a + (target - a / n) % m * n + n) := by
  obtain ⟨q, rfl⟩ := boundary
  have nonzero := ne_of_gt positive
  rw [Int.mul_ediv_cancel_left q nonzero]
  have distance := Int.emod_nonneg (target - q) (ne_of_gt around)
  have slot : n * q + (target - q) % m * n + n = n * (q + (target - q) % m + 1) := by ring
  rw [slot]
  constructor
  · refine ⟨dvd_mul_right _ _, ?_, ?_⟩
    · have further := Int.mul_le_mul_of_nonneg_left
        (show q + 1 ≤ q + (target - q) % m + 1 by omega) (le_of_lt positive)
      rw [mul_add, mul_one] at further
      exact further
    · rw [Int.mul_ediv_cancel_left _ nonzero, add_sub_cancel_right]
      have turned := (Int.mod_modEq (target - q) m).add_left q
      rwa [add_sub_cancel] at turned
  · rintro t ⟨⟨r, rfl⟩, after, numbered⟩
    rw [Int.mul_ediv_cancel_left r nonzero] at numbered
    have later : q + 1 ≤ r := by
      have scaled : n * (q + 1) ≤ n * r := by
        rw [mul_add, mul_one]
        exact after
      exact Int.le_of_mul_le_mul_left scaled positive
    have same : (target - q) % m = (r - 1 - q) % m := (numbered.sub_right q).symm
    have turns := Int.mul_nonneg (le_of_lt around) (Int.ediv_nonneg (show 0 ≤ r - 1 - q by omega)
      (le_of_lt around))
    have split := Int.emod_add_mul_ediv (r - 1 - q) m
    apply Int.mul_le_mul_of_nonneg_left _ (le_of_lt positive)
    omega

end NachOS.Lib
