import Mathlib.Algebra.BigOperators.Group.Finset.Basic
import Mathlib.Data.Finmap
import Mathlib.Data.Fintype.Basic

/-!
# Finite maps kept in tables

A table has slots, some of which are used; a used slot has a key and a value. It stands for a
finite map if no two used slots have the same key. The rules say what filling a slot, giving
one up and changing the value of one are to the map, and how the map counts what is in use.
-/
namespace NachOS.Lib

variable {ι κ β : Type*} [DecidableEq κ]

structure Tabulates (used : ι → Prop) (key : ι → κ) (value : ι → β)
    (f : Finmap fun _ : κ => β) : Prop where
  unique : ∀ i j, used i → used j → key i = key j → i = j
  lookup_iff : ∀ k v, f.lookup k = some v ↔ ∃ i, used i ∧ key i = k ∧ value i = v

namespace Tabulates

variable {used used' : ι → Prop} {key key' : ι → κ} {value value' : ι → β}
  {f : Finmap fun _ : κ => β}

theorem lookup_key (table : Tabulates used key value f) {i : ι} (here : used i) :
    f.lookup (key i) = some (value i) :=
  (table.lookup_iff _ _).mpr ⟨i, here, rfl, rfl⟩

theorem mem_iff (table : Tabulates used key value f) {k : κ} :
    k ∈ f ↔ ∃ i, used i ∧ key i = k := by
  rw [Finmap.mem_iff]
  constructor
  · intro ⟨v, found⟩
    obtain ⟨i, here, same, -⟩ := (table.lookup_iff k v).mp found
    exact ⟨i, here, same⟩
  · intro ⟨i, here, same⟩
    exact ⟨value i, same ▸ table.lookup_key here⟩

theorem empty (none : ∀ i, ¬used i) : Tabulates used key value ∅ := by
  constructor
  · intro i j here
    exact absurd here (none i)
  · intro k v
    rw [Finmap.lookup_empty]
    constructor
    · intro found
      cases found
    · intro ⟨i, here, _⟩
      exact absurd here (none i)

/-- The map depends on the used slots alone. -/
theorem congr (table : Tabulates used key value f) (same : ∀ i, used' i ↔ used i)
    (keys : ∀ i, used i → key' i = key i) (values : ∀ i, used i → value' i = value i) :
    Tabulates used' key' value' f := by
  constructor
  · intro i j usedi usedj both
    rw [same] at usedi usedj
    rw [keys i usedi, keys j usedj] at both
    exact table.unique i j usedi usedj both
  · intro k v
    rw [table.lookup_iff]
    apply exists_congr
    intro i
    rw [same]
    apply and_congr_right
    intro here
    rw [keys i here, values i here]

/-- A free slot is filled. -/
theorem insert (table : Tabulates used key value f) (i₀ : ι) {v₀ : β} (fresh : key' i₀ ∉ f)
    (same : ∀ i, used' i ↔ i = i₀ ∨ used i) (keys : ∀ i, used i → key' i = key i)
    (new : value' i₀ = v₀) (values : ∀ i, used i → value' i = value i) :
    Tabulates used' key' value' (f.insert (key' i₀) v₀) := by
  have apart : ∀ i, used i → key i ≠ key' i₀ := by
    intro i here both
    exact fresh (table.mem_iff.mpr ⟨i, here, both⟩)
  constructor
  · intro i j usedi usedj both
    rcases (same i).mp usedi with rfl | oldi <;> rcases (same j).mp usedj with rfl | oldj
    · rfl
    · rw [keys j oldj] at both
      exact absurd both.symm (apart j oldj)
    · rw [keys i oldi] at both
      exact absurd both (apart i oldi)
    · rw [keys i oldi, keys j oldj] at both
      exact table.unique i j oldi oldj both
  · intro k v
    by_cases here : k = key' i₀
    · subst here
      rw [Finmap.lookup_insert, Option.some.injEq]
      constructor
      · intro stored
        exact ⟨i₀, (same i₀).mpr (.inl rfl), rfl, new.trans stored⟩
      · intro ⟨i, usedi, both, stored⟩
        rcases (same i).mp usedi with rfl | oldi
        · exact new.symm.trans stored
        · rw [keys i oldi] at both
          exact absurd both (apart i oldi)
    · rw [Finmap.lookup_insert_of_ne _ here, table.lookup_iff]
      constructor
      · intro ⟨i, oldi, both, stored⟩
        exact ⟨i, (same i).mpr (.inr oldi), (keys i oldi).trans both, (values i oldi).trans stored⟩
      · intro ⟨i, usedi, both, stored⟩
        rcases (same i).mp usedi with rfl | oldi
        · exact absurd both.symm here
        · exact ⟨i, oldi, (keys i oldi).symm.trans both, (values i oldi).symm.trans stored⟩

/-- A used slot is given up. -/
theorem erase (table : Tabulates used key value f) (i₀ : ι) (here : used i₀)
    (same : ∀ i, used' i ↔ used i ∧ i ≠ i₀) (keys : ∀ i, used' i → key' i = key i)
    (values : ∀ i, used' i → value' i = value i) :
    Tabulates used' key' value' (f.erase (key i₀)) := by
  constructor
  · intro i j usedi usedj both
    rw [keys i usedi, keys j usedj] at both
    exact table.unique i j ((same i).mp usedi).1 ((same j).mp usedj).1 both
  · intro k v
    by_cases gone : k = key i₀
    · subst gone
      rw [Finmap.lookup_erase]
      constructor
      · intro found
        cases found
      · intro ⟨i, usedi, both, _⟩
        rw [keys i usedi] at both
        obtain ⟨old, other⟩ := (same i).mp usedi
        exact absurd (table.unique i i₀ old here both) other
    · rw [Finmap.lookup_erase_ne gone, table.lookup_iff]
      constructor
      · intro ⟨i, old, both, stored⟩
        have usedi : used' i := by
          refine (same i).mpr ⟨old, ?_⟩
          rintro rfl
          exact gone both.symm
        exact ⟨i, usedi, (keys i usedi).trans both, (values i usedi).trans stored⟩
      · intro ⟨i, usedi, both, stored⟩
        exact ⟨i, ((same i).mp usedi).1, (keys i usedi).symm.trans both,
          (values i usedi).symm.trans stored⟩

/-- The value of a used slot is changed. -/
theorem replace (table : Tabulates used key value f) (i₀ : ι) {v₀ : β} (here : used i₀)
    (same : ∀ i, used' i ↔ used i) (keys : ∀ i, used i → key' i = key i) (new : value' i₀ = v₀)
    (values : ∀ i, used i → i ≠ i₀ → value' i = value i) :
    Tabulates used' key' value' (f.insert (key i₀) v₀) := by
  constructor
  · intro i j usedi usedj both
    rw [same] at usedi usedj
    rw [keys i usedi, keys j usedj] at both
    exact table.unique i j usedi usedj both
  · intro k v
    by_cases changed : k = key i₀
    · subst changed
      rw [Finmap.lookup_insert, Option.some.injEq]
      constructor
      · intro stored
        exact ⟨i₀, (same i₀).mpr here, keys i₀ here, new.trans stored⟩
      · intro ⟨i, usedi, both, stored⟩
        rw [same] at usedi
        rw [keys i usedi] at both
        cases table.unique i i₀ usedi here both
        exact new.symm.trans stored
    · rw [Finmap.lookup_insert_of_ne _ changed, table.lookup_iff]
      apply exists_congr
      intro i
      rw [same]
      apply and_congr_right
      intro usedi
      rw [keys i usedi]
      apply and_congr_right
      intro both
      have other : i ≠ i₀ := by
        rintro rfl
        exact changed both.symm
      rw [values i usedi other]

section Count

variable [Fintype ι] [DecidablePred used]

theorem keys_eq (table : Tabulates used key value f) :
    f.keys = (Finset.univ.filter used).image key := by
  ext k
  rw [Finmap.mem_keys, table.mem_iff, Finset.mem_image]
  simp only [Finset.mem_filter, Finset.mem_univ, true_and]

theorem injOn (table : Tabulates used key value f) :
    Set.InjOn key (Finset.univ.filter used : Finset ι) := by
  intro i hi j hj both
  simp only [Finset.coe_filter, Finset.mem_univ, true_and, Set.mem_ofPred_eq] at hi hj
  exact table.unique i j hi hj both

/-- As many keys as used slots. -/
theorem card_keys (table : Tabulates used key value f) :
    f.keys.card = (Finset.univ.filter used).card := by
  rw [table.keys_eq, Finset.card_image_of_injOn table.injOn]

/-- A sum over the map is a sum over the used slots. -/
theorem sum_keys {M : Type*} [AddCommMonoid M] (table : Tabulates used key value f) (g : β → M)
    (d : β) : ∑ k ∈ f.keys, g ((f.lookup k).getD d) = ∑ i with used i, g (value i) := by
  rw [table.keys_eq, Finset.sum_image table.injOn]
  apply Finset.sum_congr rfl
  intro i hi
  rw [table.lookup_key (Finset.mem_filter.mp hi).2, Option.getD_some]

end Count

end Tabulates

end NachOS.Lib
