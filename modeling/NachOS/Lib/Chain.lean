import Mathlib.Data.List.Nodup
import Mathlib.Data.Fintype.EquivFin
import Mathlib.Logic.Function.Basic

/-!
# Singly linked chains

Cells that hold an item and the address of the next cell, in a memory that has a cell
or nothing at each address. A segment is a walk along the addresses; a chain is a
segment that ends in the null address, visits no cell twice and owns its memory:
there is no other cell in it.
-/
namespace NachOS.Lib

variable {α : Type*}

structure Cell (α : Type*) where
  next : Option Nat
  item : α

/-- Cells by their address. -/
abbrev Heap (α : Type*) := Nat → Option (Cell α)

variable {heap heap' : Heap α} {p q : Option Nat} {a b : Nat} {x y : α}
  {nodes left right : List (Nat × α)}

/-- The addresses from `p` on lead through the nodes, in order, to `q`. -/
def Segment (heap : Heap α) : Option Nat → List (Nat × α) → Option Nat → Prop
  | p, [], q => p = q
  | p, (a, x) :: rest, q =>
    p = some a ∧ ∃ next, heap a = some ⟨next, x⟩ ∧ Segment heap next rest q

/-- The address of the first node, null if there is none. -/
def start (nodes : List (Nat × α)) : Option Nat := nodes.head?.map Prod.fst

@[simp] theorem start_nil : start ([] : List (Nat × α)) = none := rfl

@[simp] theorem start_cons : start ((a, x) :: nodes) = some a := rfl

theorem segment_append :
    Segment heap p (left ++ right) q ↔ ∃ r, Segment heap p left r ∧ Segment heap r right q := by
  induction left generalizing p with
  | nil => simp [Segment]
  | cons node rest ih =>
    obtain ⟨a, x⟩ := node
    simp only [List.cons_append, Segment, ih]
    constructor
    · rintro ⟨at_p, next, cell, r, before, after⟩
      exact ⟨r, ⟨at_p, next, cell, before⟩, after⟩
    · rintro ⟨r, ⟨at_p, next, cell, before⟩, after⟩
      exact ⟨at_p, next, cell, r, before, after⟩

namespace Segment

/-- A walk depends on its own cells only. -/
theorem congr (segment : Segment heap p nodes q)
    (same : ∀ a ∈ nodes.map Prod.fst, heap' a = heap a) : Segment heap' p nodes q := by
  induction nodes generalizing p with
  | nil => exact segment
  | cons node rest ih =>
    obtain ⟨a, x⟩ := node
    obtain ⟨at_p, next, cell, segment⟩ := segment
    have here := same a List.mem_cons_self
    exact ⟨at_p, next, here.trans cell, ih segment fun b hb => same b (List.mem_cons_of_mem _ hb)⟩

/-- A cell that is not on the walk can be written. -/
theorem update (segment : Segment heap p nodes q) (cell : Option (Cell α))
    (apart : a ∉ nodes.map Prod.fst) : Segment (Function.update heap a cell) p nodes q := by
  apply segment.congr
  intro b hb
  have other : b ≠ a := fun same => apart (same ▸ hb)
  exact Function.update_of_ne other _ _

theorem start_eq (segment : Segment heap p nodes none) : p = start nodes := by
  cases nodes with
  | nil => exact segment
  | cons node rest => exact segment.1

theorem heap_isSome (segment : Segment heap p nodes q) (member : a ∈ nodes.map Prod.fst) :
    (heap a).isSome := by
  induction nodes generalizing p with
  | nil => cases member
  | cons node rest ih =>
    obtain ⟨b, x⟩ := node
    obtain ⟨-, next, cell, segment⟩ := segment
    rcases List.mem_cons.mp member with rfl | member
    · exact Option.isSome_of_eq_some cell
    · exact ih segment member

end Segment

/-- The memory holds the nodes, linked from `p` on, and nothing else. -/
structure Chain (heap : Heap α) (p : Option Nat) (nodes : List (Nat × α)) : Prop where
  linked : Segment heap p nodes none
  distinct : (nodes.map Prod.fst).Nodup
  owned : ∀ a ∉ nodes.map Prod.fst, heap a = none

namespace Chain

theorem empty : Chain (fun _ => none : Heap α) none [] where
  linked := rfl
  distinct := List.nodup_nil
  owned _ _ := rfl

theorem start_eq (chain : Chain heap p nodes) : p = start nodes := chain.linked.start_eq

theorem apart (chain : Chain heap p nodes) (free : heap a = none) : a ∉ nodes.map Prod.fst := by
  intro member
  have taken := chain.linked.heap_isSome member
  rw [free] at taken
  cases taken

/-- A memory that holds a chain only is never full. -/
theorem exists_free (chain : Chain heap p nodes) : ∃ a, heap a = none := by
  obtain ⟨a, fresh⟩ := Infinite.exists_notMem_finset (nodes.map Prod.fst).toFinset
  exact ⟨a, chain.owned a (by simpa using fresh)⟩

theorem cell (chain : Chain heap p (left ++ (a, x) :: right)) :
    heap a = some ⟨start right, x⟩ := by
  obtain ⟨r, -, -, next, cell, after⟩ := segment_append.mp chain.linked
  rw [cell, after.start_eq]

theorem cell_front (chain : Chain heap p ((a, x) :: nodes)) : heap a = some ⟨start nodes, x⟩ := by
  obtain ⟨-, next, cell, after⟩ := chain.linked
  rw [cell, after.start_eq]

/-- A free cell becomes the first one. -/
theorem pushFront (chain : Chain heap p nodes) (free : heap a = none) :
    Chain (Function.update heap a (some ⟨p, x⟩)) (some a) ((a, x) :: nodes) := by
  have apart := chain.apart free
  constructor
  · exact ⟨rfl, p, Function.update_self .., chain.linked.update _ apart⟩
  · exact List.nodup_cons.mpr ⟨apart, chain.distinct⟩
  · intro b hb
    have other : b ≠ a := fun same => hb (same ▸ List.mem_cons_self)
    rw [Function.update_of_ne other]
    exact chain.owned b fun member => hb (List.mem_cons_of_mem _ member)

/-- The first cell is deleted. -/
theorem dropFront (chain : Chain heap p ((a, x) :: nodes)) :
    Chain (Function.update heap a none) (start nodes) nodes := by
  obtain ⟨apart, distinct⟩ := List.nodup_cons.mp chain.distinct
  obtain ⟨-, next, -, after⟩ := chain.linked
  rw [after.start_eq] at after
  constructor
  · exact after.update _ apart
  · exact distinct
  · intro b hb
    by_cases same : b = a
    · rw [same, Function.update_self]
    · rw [Function.update_of_ne same]
      apply chain.owned b
      intro member
      rcases List.mem_cons.mp member with here | member
      · exact same here
      · exact hb member

/-- The part of a chain up to a node, and what follows the node. -/
theorem split (chain : Chain heap p (left ++ (a, x) :: right)) :
    Segment heap p left (some a) ∧ Segment heap (start right) right none ∧
      a ∉ left.map Prod.fst ∧ a ∉ right.map Prod.fst := by
  obtain ⟨r, before, at_a, next, -, after⟩ := segment_append.mp chain.linked
  have distinct := chain.distinct
  rw [List.map_append, List.map_cons] at distinct
  obtain ⟨-, inner, cross⟩ := List.nodup_append'.mp distinct
  subst at_a
  refine ⟨before, after.start_eq ▸ after, ?_, (List.nodup_cons.mp inner).1⟩
  exact fun member => cross member List.mem_cons_self

/-- The node's link is redirected to a node that follows it. -/
theorem relink (chain : Chain heap p (left ++ (a, x) :: right)) {rest : List (Nat × α)}
    (after : Segment heap' q rest none)
    (same : ∀ b ∈ left.map Prod.fst, heap' b = heap b) (here : heap' a = some ⟨q, x⟩) :
    Segment heap' p (left ++ (a, x) :: rest) none := by
  obtain ⟨before, -⟩ := chain.split
  exact segment_append.mpr ⟨some a, before.congr same, rfl, q, here, after⟩

/-- A free cell is linked in behind a node. -/
theorem insertAfter (chain : Chain heap p (left ++ (a, x) :: right)) (free : heap b = none) :
    Chain (Function.update (Function.update heap b (some ⟨start right, y⟩)) a (some ⟨some b, x⟩))
      p (left ++ (a, x) :: (b, y) :: right) := by
  have fresh := chain.apart free
  obtain ⟨-, after, left_apart, right_apart⟩ := chain.split
  rw [List.map_append, List.map_cons, List.mem_append, List.mem_cons, not_or, not_or] at fresh
  obtain ⟨left_fresh, other, right_fresh⟩ := fresh
  constructor
  · apply chain.relink (q := some b)
    · refine ⟨rfl, start right, ?_, (after.update _ right_fresh).update _ right_apart⟩
      rw [Function.update_of_ne other, Function.update_self]
    · intro c hc
      have not_a : c ≠ a := fun same => left_apart (same ▸ hc)
      have not_b : c ≠ b := fun same => left_fresh (same ▸ hc)
      rw [Function.update_of_ne not_a, Function.update_of_ne not_b]
    · exact Function.update_self ..
  · have perm : ((left ++ (a, x) :: (b, y) :: right).map Prod.fst).Perm
        (b :: (left ++ (a, x) :: right).map Prod.fst) := by
      have middle : ((left ++ [(a, x)]) ++ (b, y) :: right).Perm
          ((b, y) :: ((left ++ [(a, x)]) ++ right)) := List.perm_middle
      simpa using middle.map Prod.fst
    rw [perm.nodup_iff, List.nodup_cons]
    exact ⟨chain.apart free, chain.distinct⟩
  · intro c hc
    simp only [List.map_append, List.map_cons, List.mem_append, List.mem_cons, not_or] at hc
    obtain ⟨hl, ha, hb, hr⟩ := hc
    rw [Function.update_of_ne ha, Function.update_of_ne hb]
    apply chain.owned c
    simp only [List.map_append, List.map_cons, List.mem_append, List.mem_cons, not_or]
    exact ⟨hl, ha, hr⟩

/-- The cell behind a node is unlinked and deleted. -/
theorem unlinkAfter (chain : Chain heap p (left ++ (a, x) :: (b, y) :: right)) :
    Chain (Function.update (Function.update heap a (some ⟨start right, x⟩)) b none)
      p (left ++ (a, x) :: right) := by
  obtain ⟨-, ⟨-, next, -, after⟩, left_apart, inner⟩ := chain.split
  have second : Chain heap p ((left ++ [(a, x)]) ++ (b, y) :: right) := by simpa using chain
  obtain ⟨-, -, left_fresh, right_fresh⟩ := second.split
  rw [List.map_cons, List.mem_cons, not_or] at inner
  obtain ⟨other, right_apart⟩ := inner
  rw [after.start_eq] at after
  rw [List.map_append, List.mem_append, not_or] at left_fresh
  constructor
  · apply chain.relink
    · exact (after.update _ right_apart).update _ right_fresh
    · intro c hc
      have not_a : c ≠ a := fun same => left_apart (same ▸ hc)
      have not_b : c ≠ b := fun same => left_fresh.1 (same ▸ hc)
      rw [Function.update_of_ne not_b, Function.update_of_ne not_a]
    · rw [Function.update_of_ne other, Function.update_self]
  · have shorter : (left ++ (a, x) :: right).Sublist (left ++ (a, x) :: (b, y) :: right) :=
      List.Sublist.append_left ((List.sublist_cons_self _ _).cons_cons _) _
    exact (shorter.map Prod.fst).nodup chain.distinct
  · intro c hc
    by_cases deleted : c = b
    · rw [deleted, Function.update_self]
    · simp only [List.map_append, List.map_cons, List.mem_append, List.mem_cons, not_or] at hc
      obtain ⟨hl, ha, hr⟩ := hc
      rw [Function.update_of_ne deleted, Function.update_of_ne ha]
      apply chain.owned c
      simp only [List.map_append, List.map_cons, List.mem_append, List.mem_cons, not_or]
      exact ⟨hl, ha, deleted, hr⟩

end Chain

end NachOS.Lib
