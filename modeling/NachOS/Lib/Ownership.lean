import Mathlib.Data.List.Nodup
import Mathlib.Logic.Function.Basic

/-!
# Exact ownership

Resources with a mark each, and owners that each hold a list of resources. The
marks are exact when no resource is held twice (by one owner or by two) and the
marked ones are those that are held: nothing is leaked and nothing is shared.
-/
namespace NachOS.Lib

variable {ι α : Type*}

structure Exact (marked : α → Prop) (own : ι → List α) : Prop where
  nodup : ∀ i, (own i).Nodup
  disjoint : ∀ i j a, a ∈ own i → a ∈ own j → i = j
  marked_iff : ∀ a, marked a ↔ ∃ i, a ∈ own i

namespace Exact

variable {marked marked' : α → Prop} {own own' : ι → List α}

theorem congr (h : Exact marked own) (marks : ∀ a, marked' a ↔ marked a)
    (owners : ∀ i, own' i = own i) : Exact marked' own' := by
  have same : own' = own := funext owners
  subst same
  exact ⟨h.nodup, h.disjoint, fun a => (marks a).trans (h.marked_iff a)⟩

/-- Nothing is marked and nothing is owned. -/
theorem empty : Exact (fun _ : α => False) (fun _ : ι => []) where
  nodup _ := List.nodup_nil
  disjoint i j a ha _ := by cases ha
  marked_iff a := by simp

/-- An owner without resources gets a list of unmarked ones. -/
theorem assign (h : Exact marked own) (i : ι) {l : List α} (empty : own i = [])
    (nodup : l.Nodup) (fresh : ∀ a ∈ l, ¬ marked a) (marks : ∀ a, marked' a ↔ a ∈ l ∨ marked a)
    (target : own' i = l) (others : ∀ j, j ≠ i → own' j = own j) : Exact marked' own' := by
  refine ⟨fun j => ?_, fun j k a hj hk => ?_, fun a => ?_⟩
  · by_cases hji : j = i
    · rw [hji, target]
      exact nodup
    · rw [others j hji]
      exact h.nodup j
  · by_cases hji : j = i <;> by_cases hki : k = i
    · rw [hji, hki]
    · rw [hji, target] at hj
      rw [others k hki] at hk
      exact absurd ((h.marked_iff a).mpr ⟨k, hk⟩) (fresh a hj)
    · rw [others j hji] at hj
      rw [hki, target] at hk
      exact absurd ((h.marked_iff a).mpr ⟨j, hj⟩) (fresh a hk)
    · rw [others j hji] at hj
      rw [others k hki] at hk
      exact h.disjoint j k a hj hk
  · rw [marks, h.marked_iff]
    constructor
    · rintro (ha | ⟨j, hj⟩)
      · exact ⟨i, target ▸ ha⟩
      · have hji : j ≠ i := by
          rintro rfl
          simp [empty] at hj
        exact ⟨j, others j hji ▸ hj⟩
    · rintro ⟨j, hj⟩
      by_cases hji : j = i
      · rw [hji, target] at hj
        exact .inl hj
      · rw [others j hji] at hj
        exact .inr ⟨j, hj⟩

/-- An owner gives up its resources. -/
theorem release (h : Exact marked own) (i : ι) (marks : ∀ a, marked' a ↔ marked a ∧ a ∉ own i)
    (target : own' i = []) (others : ∀ j, j ≠ i → own' j = own j) : Exact marked' own' := by
  have keep : ∀ j a, a ∈ own' j → j ≠ i ∧ a ∈ own j := by
    intro j a ha
    have hji : j ≠ i := by
      rintro rfl
      simp [target] at ha
    exact ⟨hji, others j hji ▸ ha⟩
  refine ⟨fun j => ?_, fun j k a hj hk => ?_, fun a => ?_⟩
  · by_cases hji : j = i
    · simp [hji, target]
    · rw [others j hji]
      exact h.nodup j
  · exact h.disjoint j k a (keep j a hj).2 (keep k a hk).2
  · rw [marks, h.marked_iff]
    constructor
    · rintro ⟨⟨j, hj⟩, hi⟩
      have hji : j ≠ i := fun e => hi (e ▸ hj)
      exact ⟨j, others j hji ▸ hj⟩
    · rintro ⟨j, hj⟩
      obtain ⟨hji, hj⟩ := keep j a hj
      exact ⟨⟨j, hj⟩, fun hi => hji (h.disjoint j i a hj hi)⟩

end Exact

end NachOS.Lib
