import Mathlib.Data.List.Basic
import Mathlib.Data.List.Nodup

/-!
# List<T> (lib/list.cc)

`List<T>` as the sequence of its items, front first. `append` and `removeFront`
keep the source's assertions: appending an item that is already on the list, or
removing from an empty list, aborts (`none`). `insert` is that of `SortedList<T>`.
-/
namespace NachOS.Library

variable {α : Type*}

/-- `List::Append` with its `ASSERT(!IsInList(item))`. -/
def append [DecidableEq α] (list : List α) (item : α) : Option (List α) :=
  if item ∈ list then none else some (list ++ [item])

/-- `List::RemoveFront` with its `ASSERT(!IsEmpty())`. -/
def removeFront : List α → Option (α × List α)
  | [] => none
  | thing :: rest => some (thing, rest)

theorem append_eq_some [DecidableEq α] {list after : List α} {item : α} :
    append list item = some after ↔ item ∉ list ∧ after = list ++ [item] := by
  unfold append
  split
  · simp [*]
  · simp [*, eq_comm]

theorem append_fresh [DecidableEq α] {list : List α} {item : α} (h : item ∉ list) :
    append list item = some (list ++ [item]) :=
  append_eq_some.mpr ⟨h, rfl⟩

section SortedList

variable (compare : α → α → Int)

/-- The walk of `SortedList::Insert`: before the first element that is bigger. -/
def place (item : α) : List α → List α
  | [] => [item]
  | first :: rest =>
    if compare item first < 0 then item :: first :: rest else first :: place item rest

/-- `SortedList::Insert` with its `ASSERT(!IsInList(item))`. -/
def insert [DecidableEq α] (list : List α) (item : α) : Option (List α) :=
  if item ∈ list then none else some (place compare item list)

variable {compare}

theorem insert_eq_some [DecidableEq α] {list after : List α} {item : α} :
    insert compare list item = some after ↔ item ∉ list ∧ after = place compare item list := by
  unfold insert
  split
  · simp [*]
  · simp [*, eq_comm]

theorem place_perm (item : α) (list : List α) : (place compare item list).Perm (item :: list) := by
  induction list with
  | nil => exact .refl _
  | cons first rest ih =>
    unfold place
    split
    · exact .refl _
    · exact (ih.cons first).trans (.swap item first rest)

/-- Any order that the comparison decides, and that ranks the new item after the
items it compares equal to, is kept. -/
theorem place_pairwise {R : α → α → Prop} (trans : ∀ a b c, R a b → R b c → R a c) {item : α}
    {list : List α} (smaller : ∀ x ∈ list, compare item x < 0 → R item x)
    (larger : ∀ x ∈ list, ¬ compare item x < 0 → R x item) (sorted : list.Pairwise R) :
    (place compare item list).Pairwise R := by
  induction list with
  | nil => exact List.pairwise_singleton R item
  | cons first rest ih =>
    obtain ⟨head, tail⟩ := List.pairwise_cons.mp sorted
    unfold place
    split
    next below =>
      have front := smaller first List.mem_cons_self below
      refine List.pairwise_cons.mpr ⟨?_, sorted⟩
      intro x hx
      rcases List.mem_cons.mp hx with rfl | hx
      · exact front
      · exact trans _ _ _ front (head x hx)
    next above =>
      have placed := ih (fun x hx => smaller x (List.mem_cons_of_mem _ hx))
        (fun x hx => larger x (List.mem_cons_of_mem _ hx)) tail
      refine List.pairwise_cons.mpr ⟨?_, placed⟩
      intro x hx
      rcases List.mem_cons.mp ((place_perm item rest).mem_iff.mp hx) with rfl | hx
      · exact larger first List.mem_cons_self above
      · exact head x hx

end SortedList

end NachOS.Library
