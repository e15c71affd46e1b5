import Mathlib.Data.List.Nodup

/-!
# Handing items out

Threads take items one after another from one source and give each of them on
later, in an order of their own. An item is known by its position in the order of
taking: `taken` is that order, `held t` what `t` has taken and not yet given on,
and `given` what has been given on, with its position.
-/
namespace NachOS.Lib

variable {Thread α : Type*}

/-- Every item taken was given on once or is held by one thread. -/
structure Accounted (taken : List α) (held : Thread → Option (Nat × α)) (given : List (Nat × α)) :
    Prop where
  holds : ∀ t k a, held t = some (k, a) → taken[k]? = some a ∧ k ∉ given.map Prod.fst
  distinct : ∀ t u k a b, held t = some (k, a) → held u = some (k, b) → t = u
  gave : ∀ k a, (k, a) ∈ given → taken[k]? = some a
  once : (given.map Prod.fst).Nodup
  covered : ∀ k < taken.length, k ∈ given.map Prod.fst ∨ ∃ t a, held t = some (k, a)

namespace Accounted

variable {taken : List α} {held held' : Thread → Option (Nat × α)} {given : List (Nat × α)}
  {t : Thread} {k : Nat} {a : α}

theorem initial (none : ∀ t, held t = none) : Accounted [] held [] := by
  constructor <;> simp [none]

theorem congr (h : Accounted taken held given) (same : ∀ t, held' t = held t) :
    Accounted taken held' given := by
  have : held' = held := funext same
  rwa [this]

theorem lt_length (h : Accounted taken held given) (hk : held t = some (k, a)) : k < taken.length :=
  (List.getElem?_eq_some_iff.mp (h.holds t k a hk).1).1

/-- `t` takes the next item. -/
theorem take (h : Accounted taken held given) (free : held t = none)
    (own : held' t = some (taken.length, a)) (others : ∀ u, u ≠ t → held' u = held u) :
    Accounted (taken ++ [a]) held' given := by
  have fresh : taken.length ∉ given.map Prod.fst := by
    intro hmem
    obtain ⟨⟨k, b⟩, member, rfl⟩ := List.mem_map.mp hmem
    exact absurd (List.getElem?_eq_some_iff.mp (h.gave _ _ member)).1 (Nat.lt_irrefl _)
  have older : ∀ (k : Nat) b, taken[k]? = some b → (taken ++ [a])[k]? = some b := by
    intro k b hk
    rw [List.getElem?_append_left (List.getElem?_eq_some_iff.mp hk).1, hk]
  -- What a thread holds now is the new item, or what it held before.
  have cases : ∀ u k b, held' u = some (k, b) →
      (u = t ∧ k = taken.length ∧ b = a) ∨ (u ≠ t ∧ held u = some (k, b)) := by
    intro u k b hu
    by_cases hut : u = t
    · rw [hut, own] at hu
      obtain ⟨rfl, rfl⟩ := Prod.mk.inj (Option.some.inj hu)
      exact .inl ⟨hut, rfl, rfl⟩
    · rw [others u hut] at hu
      exact .inr ⟨hut, hu⟩
  constructor
  · intro u k b hu
    rcases cases u k b hu with ⟨_, rfl, rfl⟩ | ⟨_, hu⟩
    · exact ⟨by simp, fresh⟩
    · exact ⟨older k b (h.holds u k b hu).1, (h.holds u k b hu).2⟩
  · intro u w k b c hu hw
    rcases cases u k b hu with ⟨rfl, hk, _⟩ | ⟨_, hu⟩ <;>
      rcases cases w k c hw with ⟨rfl, hk', _⟩ | ⟨_, hw⟩
    · rfl
    · exact absurd hk (Nat.ne_of_lt (h.lt_length hw))
    · exact absurd hk' (Nat.ne_of_lt (h.lt_length hu))
    · exact h.distinct u w k b c hu hw
  · intro k b hk
    exact older k b (h.gave k b hk)
  · exact h.once
  · intro k hk
    by_cases hlt : k < taken.length
    · refine (h.covered k hlt).imp_right ?_
      intro ⟨u, b, hu⟩
      have hut : u ≠ t := by
        rintro rfl
        simp [free] at hu
      exact ⟨u, b, (others u hut).trans hu⟩
    · have hlen : k = taken.length := by
        simp only [List.length_append, List.length_singleton] at hk
        omega
      exact .inr ⟨t, a, by rw [own, hlen]⟩

/-- `t` gives on what it holds. -/
theorem give (h : Accounted taken held given) (had : held t = some (k, a)) (own : held' t = none)
    (others : ∀ u, u ≠ t → held' u = held u) : Accounted taken held' (given ++ [(k, a)]) := by
  have still : ∀ u j b, held' u = some (j, b) → u ≠ t ∧ held u = some (j, b) := by
    intro u j b hu
    have hut : u ≠ t := by
      rintro rfl
      simp [own] at hu
    exact ⟨hut, (others u hut).symm.trans hu⟩
  constructor
  · intro u j b hu
    obtain ⟨hut, before⟩ := still u j b hu
    obtain ⟨at_j, kept⟩ := h.holds u j b before
    have hj : j ≠ k := fun hj => hut (h.distinct u t j b a before (hj ▸ had))
    refine ⟨at_j, ?_⟩
    rw [List.map_append, List.mem_append, not_or]
    exact ⟨kept, by simp [hj]⟩
  · intro u w j b c hu hw
    exact h.distinct u w j b c (still u j b hu).2 (still w j c hw).2
  · intro j b hj
    rcases List.mem_append.mp hj with hj | hj
    · exact h.gave j b hj
    · obtain ⟨rfl, rfl⟩ := Prod.mk.inj (List.mem_singleton.mp hj)
      exact (h.holds t j b had).1
  · rw [List.map_append, List.nodup_append]
    refine ⟨h.once, by simp, ?_⟩
    intro j hj i hi
    have hi : i = k := by simpa using hi
    rw [hi]
    exact ne_of_mem_of_not_mem hj (h.holds t k a had).2
  · intro j hj
    rw [List.map_append, List.mem_append]
    rcases h.covered j hj with given | ⟨u, b, hu⟩
    · exact .inl (.inl given)
    · by_cases hut : u = t
      · rw [hut, had] at hu
        obtain ⟨rfl, rfl⟩ := Prod.mk.inj (Option.some.inj hu)
        exact .inl (.inr (by simp))
      · exact .inr ⟨u, b, (others u hut).trans hu⟩

end Accounted

end NachOS.Lib
