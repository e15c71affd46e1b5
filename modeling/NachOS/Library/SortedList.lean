import NachOS.Library.LinkedList

/-!
# SortedList<T> on its elements (lib/list.cc:232-260, 334-347)

`SortedList<T>` has the fields of `List<T>` and a comparison function. `Insert` leaves by
different exits: an item that goes into the middle is counted inside the loop, which then
returns without the assertion at the end.
-/
namespace NachOS.Library
open NachOS.Lib

namespace LinkedList

variable {α : Type} (compare : α → α → Int)

/-- The loop of `SortedList::Insert` from `ptr` on: the list that the function returns with,
or `none` where the loop runs to the end of the list. -/
def insertWalk (list : LinkedList α) (element : Nat) (item : α) :
    Nat → Option Nat → Option (Option (LinkedList α))
  | 0, _ => none
  | fuel + 1, ptr => do
    let here ← list.deref ptr
    match here.next with
    | none => some none
    | some next => do
      let after ← list.heap next
      if compare item after.item < 0 then do
        let list ← list.setNext (some element) (some next)
        let list ← list.setNext ptr (some element)
        some (some { list with numInList := list.numInList + 1 })
      else list.insertWalk element item fuel (some next)

/-- `SortedList::Insert`. -/
def insert [DecidableEq α] (list : LinkedList α) (fuel element : Nat) (item : α) :
    Option (LinkedList α) := do
  let list := list.newElement element item
  guard ((← list.isInList fuel item) = false)
  if list.isEmpty then (list.putOnly element).bind fun list => list.inserted fuel item
  else do
    let front ← list.deref list.first
    if compare item front.item < 0 then
      (list.putFirst element).bind fun list => list.inserted fuel item
    else do
      match ← list.insertWalk compare element item fuel list.first with
      | some list => some list
      | none => (list.putLast element).bind fun list => list.inserted fuel item

/-- The loop of `SortedList::SanityCheck`. -/
def sortedWalk (list : LinkedList α) : Nat → Option Nat → Option Nat → Option Unit
  | _, _, none => some ()
  | 0, _, some _ => none
  | fuel + 1, prev, some ptr => do
    let before ← list.deref prev
    let element ← list.heap ptr
    guard (compare before.item element.item ≤ 0)
    list.sortedWalk fuel (some ptr) element.next

/-- `SortedList::SanityCheck`. -/
def sortedSanityCheck (list : LinkedList α) (fuel : Nat) : Option Unit := do
  list.sanityCheck fuel
  if list.first ≠ list.last then do
    let front ← list.deref list.first
    list.sortedWalk compare fuel list.first front.next
  else some ()

variable {compare} {list : LinkedList α} {nodes left rest : List (Nat × α)}
  {a element fuel : Nat} {item x : α}

/-- Where the walk puts a node: the items decide. -/
def placed (compare : α → α → Int) (element : Nat) (item : α) (nodes : List (Nat × α)) :
    List (Nat × α) :=
  place (fun n m => compare n.2 m.2) (element, item) nodes

theorem placed_items (nodes : List (Nat × α)) :
    (placed compare element item nodes).map Prod.snd = place compare item (nodes.map Prod.snd) := by
  unfold placed
  induction nodes with
  | nil => rfl
  | cons node rest ih =>
    simp only [place, List.map_cons]
    split
    · rfl
    · rw [List.map_cons, ih]

/-- The cells of the list are as before, next to the new one. -/
theorem Represents.newElement_heap (rep : list.Represents (left ++ (a, x) :: rest))
    (free : list.heap element = none) (item : α) :
    (list.newElement element item).heap a = some ⟨start rest, x⟩ := by
  have other : a ≠ element := by
    intro same
    apply rep.chain.apart free
    simp [same]
  exact (Function.update_of_ne other _ _).trans rep.chain.cell

/-- An element that is linked in before another one. -/
theorem Represents.link (rep : list.Represents (left ++ (a, x) :: rest))
    (free : list.heap element = none) (inner : rest ≠ []) (item : α) :
    ∃ linked after,
      (list.newElement element item).setNext (some element) (start rest) = some linked ∧
      linked.setNext (some a) (some element) = some after ∧
      Represents { after with numInList := after.numInList + 1 }
        (left ++ (a, x) :: (element, item) :: rest) := by
  have cell : (list.newElement element item).heap element = some ⟨none, item⟩ :=
    Function.update_self ..
  have other : a ≠ element := by
    intro same
    apply rep.chain.apart free
    simp [same]
  have heap : Function.update (list.newElement element item).heap element
      (some ⟨start rest, item⟩) = Function.update list.heap element (some ⟨start rest, item⟩) :=
    Function.update_idem ..
  have here : Function.update list.heap element (some ⟨start rest, item⟩) a =
      some ⟨start rest, x⟩ :=
    (Function.update_of_ne other _ _).trans rep.chain.cell
  have chain := rep.chain.insertAfter free (y := item)
  refine ⟨_, _, setNext_some cell, setNext_some (by rw [heap]; exact here), ?_, ?_, ?_⟩
  · rw [heap]
    exact chain
  · refine rep.last.trans ?_
    cases rest with
    | nil => exact absurd rfl inner
    | cons node rest => simp [List.getLast?_append, List.getLast?_cons_cons]
  · have count := rep.count
    simp only [List.length_append, List.length_cons] at count ⊢
    simp only [newElement]
    omega

/-- The walk links the element in before a bigger one, or there is none. -/
theorem Represents.insertWalk (rep : list.Represents (left ++ (a, x) :: rest))
    (free : list.heap element = none) (enough : rest.length < fuel) :
    (∃ list', (list.newElement element item).insertWalk compare element item fuel (some a) =
        some (some list') ∧
      list'.Represents (left ++ (a, x) :: placed compare element item rest)) ∨
    ((list.newElement element item).insertWalk compare element item fuel (some a) = some none ∧
      placed compare element item rest = rest ++ [(element, item)]) := by
  induction rest generalizing left a x fuel with
  | nil =>
    have cell := rep.newElement_heap free item
    cases fuel with
    | zero => simp at enough
    | succ fuel =>
      refine .inr ⟨?_, rfl⟩
      simp [LinkedList.insertWalk, deref, cell]
  | cons node after ih =>
    obtain ⟨b, y⟩ := node
    have next : list.Represents ((left ++ [(a, x)]) ++ (b, y) :: after) := by
      rw [List.append_cons] at rep
      exact rep
    have cell_a := rep.newElement_heap free item
    have cell_b := next.newElement_heap free item
    cases fuel with
    | zero => simp at enough
    | succ fuel =>
      simp only [LinkedList.insertWalk, deref, Option.bind_eq_bind, Option.bind_some, cell_a,
        start_cons, cell_b, placed, place]
      by_cases bigger : compare item y < 0
      · obtain ⟨linked, after', first, second, rep'⟩ :=
          rep.link free (List.cons_ne_nil _ _) item
        rw [start_cons] at first
        simp only [if_pos bigger, first, second, Option.bind_some]
        exact .inl ⟨_, rfl, rep'⟩
      · simp only [if_neg bigger]
        rcases ih next (Nat.lt_of_succ_lt_succ enough) with ⟨list', walk, rep'⟩ | ⟨walk, last⟩
        · refine .inl ⟨list', walk, ?_⟩
          simpa [placed] using rep'
        · refine .inr ⟨walk, ?_⟩
          rw [List.cons_append]
          exact congrArg _ last

theorem Represents.insert [DecidableEq α] (rep : list.Represents nodes)
    (free : list.heap element = none) (fresh : item ∉ nodes.map Prod.snd)
    (enough : nodes.length < fuel) :
    ∃ list', list.insert compare fuel element item = some list' ∧
      list'.Represents (placed compare element item nodes) := by
  have absent := rep.isInList_newElement item free (Nat.le_of_lt enough)
  rw [decide_eq_false fresh] at absent
  unfold LinkedList.insert
  simp only [Option.bind_eq_bind, absent, Option.bind_some]
  rw [guard_holds trivial, Option.bind_some]
  cases nodes with
  | nil =>
    obtain ⟨list', run, linked⟩ := rep.putOnly free item
    rw [if_pos (rep.isEmpty_newElement.mpr rfl), run]
    exact inserted_represents linked List.mem_cons_self enough
  | cons node rest =>
    obtain ⟨a, x⟩ := node
    have inner : list.Represents ([] ++ (a, x) :: rest) := rep
    have first : (list.newElement element item).first = some a := rep.first_eq
    have cell := inner.newElement_heap free item
    rw [if_neg (fun none => List.cons_ne_nil _ _ (rep.isEmpty_newElement.mp none))]
    simp only [first, deref, Option.bind_some, cell, placed, place]
    by_cases smaller : compare item x < 0
    · obtain ⟨list', run, linked⟩ := rep.putFirst free (List.cons_ne_nil _ _) item
      simp only [if_pos smaller, run, Option.bind_some]
      exact inserted_represents linked List.mem_cons_self enough
    · simp only [if_neg smaller]
      rcases inner.insertWalk free (Nat.lt_of_succ_lt enough) with
        ⟨list', walk, rep'⟩ | ⟨walk, last⟩
      · rw [walk]
        exact ⟨list', rfl, rep'⟩
      · obtain ⟨list', run, linked⟩ := rep.putLast free (List.cons_ne_nil _ _) item
        have ends : (a, x) :: place (fun n m => compare n.2 m.2) (element, item) rest =
            ((a, x) :: rest) ++ [(element, item)] := congrArg _ last
        rw [walk, Option.bind_some, ends]
        simp only [run, Option.bind_some]
        refine inserted_represents linked ?_ ?_
        · simp
        · rw [List.length_append]
          exact enough

/-- `Insert` on the elements is `Insert` on the sequence: both abort for an item that is
there. -/
theorem Spells.insert_refines [DecidableEq α] {items : List α} (spells : list.Spells items)
    (item : α) (free : list.heap element = none) (enough : items.length < fuel) :
    Option.Rel Spells (list.insert compare fuel element item)
      (Library.insert compare items item) := by
  obtain ⟨nodes, rep, rfl⟩ := spells
  rw [List.length_map] at enough
  by_cases member : item ∈ nodes.map Prod.snd
  · have present := rep.isInList_newElement item free (Nat.le_of_lt enough)
    rw [decide_eq_true member] at present
    have aborts : list.insert compare fuel element item = none := by
      simp [LinkedList.insert, present]
    rw [aborts, Library.insert, if_pos member]
    exact .none
  · obtain ⟨list', run, rep'⟩ :
        ∃ list', list.insert compare fuel element item = some list' ∧ _ :=
      rep.insert free member enough
    rw [run, Library.insert, if_neg member, ← placed_items]
    exact .some ⟨_, rep', rfl⟩

/-- The loop of `SanityCheck` passes on items none of which is above the next. -/
theorem Represents.sortedWalk (rep : list.Represents (left ++ (a, x) :: rest))
    (sorted : (x :: rest.map Prod.snd).Pairwise (fun a b => compare a b ≤ 0))
    (enough : rest.length ≤ fuel) :
    list.sortedWalk compare fuel (some a) (start rest) = some () := by
  induction rest generalizing left a x fuel with
  | nil => simp [LinkedList.sortedWalk]
  | cons node rest ih =>
    obtain ⟨b, y⟩ := node
    obtain ⟨head, tail⟩ := List.pairwise_cons.mp sorted
    have cell_a := rep.chain.cell
    have next : list.Represents ((left ++ [(a, x)]) ++ (b, y) :: rest) := by
      rw [List.append_cons] at rep
      exact rep
    have cell_b := next.chain.cell
    cases fuel with
    | zero => simp at enough
    | succ fuel =>
      have later := ih next tail (Nat.le_of_succ_le_succ enough)
      have le : compare x y ≤ 0 := head y List.mem_cons_self
      rw [start_cons]
      simp only [LinkedList.sortedWalk, deref, Option.bind_eq_bind, Option.bind_some, cell_a,
        cell_b]
      rw [guard_holds le]
      exact later

theorem Spells.sortedSanityCheck {items : List α} (spells : list.Spells items)
    (sorted : items.Pairwise (fun a b => compare a b ≤ 0)) (enough : items.length ≤ fuel) :
    list.sortedSanityCheck compare fuel = some () := by
  obtain ⟨nodes, rep, rfl⟩ := spells
  rw [List.length_map] at enough
  unfold LinkedList.sortedSanityCheck
  rw [rep.sanityCheck enough]
  simp only [Option.bind_eq_bind, Option.bind_some]
  split
  next several =>
    cases nodes with
    | nil => exact absurd (rep.first_eq.trans rep.last.symm) several
    | cons node rest =>
      obtain ⟨a, x⟩ := node
      have first : list.first = some a := rep.first_eq
      have inner : list.Represents ([] ++ (a, x) :: rest) := rep
      simp only [deref, first, Option.bind_some, rep.chain.cell_front]
      exact inner.sortedWalk sorted (Nat.le_of_succ_le enough)
  next => rfl

end LinkedList

/-- `compare(x, y)` is negative, zero or positive as `x` is below, level with or above `y`. -/
structure TotalPreorder {α : Type} (compare : α → α → Int) : Prop where
  flip : ∀ a b, compare a b < 0 ↔ 0 < compare b a
  trans : ∀ a b c, compare a b ≤ 0 → compare b c ≤ 0 → compare a c ≤ 0

section Order

variable {α : Type} {compare : α → α → Int} {a b c t item : α} {inserted : List α}

namespace TotalPreorder

theorem level_comm (order : TotalPreorder compare) (level : compare a b = 0) : compare b a = 0 := by
  have forth := order.flip a b
  have back := order.flip b a
  omega

theorem le_of_not_lt (order : TotalPreorder compare) (above : ¬ compare a b < 0) :
    compare b a ≤ 0 := by
  have := order.flip a b
  omega

theorem lt_trans (order : TotalPreorder compare) (first : compare a b < 0)
    (second : compare b c ≤ 0) : compare a c < 0 := by
  by_contra above
  have back := order.trans b c a second (order.le_of_not_lt above)
  have := order.flip a b
  omega

theorem lt_trans' (order : TotalPreorder compare) (first : compare a b ≤ 0)
    (second : compare b c < 0) : compare a c < 0 := by
  by_contra above
  have back := order.trans c a b (order.le_of_not_lt above) first
  have := order.flip b c
  omega

end TotalPreorder

/-- The item that leaves first: the earliest among the lowest ones. -/
def earliest (compare : α → α → Int) : List α → Option α
  | [] => none
  | item :: rest =>
    match earliest compare rest with
    | none => some item
    | some other => if compare other item < 0 then some other else some item

theorem earliest_eq_none (none : earliest compare inserted = .none) : inserted = [] := by
  cases inserted with
  | nil => rfl
  | cons item rest =>
    unfold earliest at none
    split at none
    · cases none
    · split at none <;> cases none

variable [DecidableEq α]

/-- `a` leaves the list before `b`: it is below `b`, or level with it and inserted earlier. -/
def Precedes (compare : α → α → Int) (inserted : List α) (a b : α) : Prop :=
  compare a b < 0 ∨ compare a b = 0 ∧ inserted.idxOf a < inserted.idxOf b

namespace Precedes

theorem trans (order : TotalPreorder compare) (first : Precedes compare inserted a b)
    (second : Precedes compare inserted b c) : Precedes compare inserted a c := by
  rcases first with below | ⟨level, earlier⟩
  · refine .inl (order.lt_trans below ?_)
    rcases second with below | ⟨level, -⟩ <;> omega
  · rcases second with below | ⟨level', earlier'⟩
    · exact .inl (order.lt_trans' (by omega) below)
    · have le := order.trans a b c (by omega) (by omega)
      have ge := order.trans c b a (by rw [order.level_comm level'])
        (by rw [order.level_comm level])
      have := order.flip a c
      exact .inr ⟨by omega, by omega⟩

theorem asymm (order : TotalPreorder compare) (first : Precedes compare inserted a b) :
    ¬ Precedes compare inserted b a := by
  have forth := order.flip a b
  have back := order.flip b a
  unfold Precedes at *
  omega

/-- Items keep their order when another one is inserted after them. -/
theorem append (before : Precedes compare inserted a b) (ha : a ∈ inserted) (hb : b ∈ inserted) :
    Precedes compare (inserted ++ [item]) a b := by
  unfold Precedes at *
  rwa [List.idxOf_append_of_mem ha, List.idxOf_append_of_mem hb]

end Precedes

theorem idxOf_erase_lt (ha : a ≠ t) (hb : b ≠ t) (earlier : inserted.idxOf a < inserted.idxOf b) :
    (inserted.erase t).idxOf a < (inserted.erase t).idxOf b := by
  induction inserted with
  | nil => exact earlier
  | cons x rest ih =>
    by_cases removed : x = t
    · subst removed
      rw [List.idxOf_cons_ne _ (Ne.symm ha), List.idxOf_cons_ne _ (Ne.symm hb)] at earlier
      rw [List.erase_cons_head]
      omega
    · rw [List.erase_cons_tail (by simpa using removed)]
      by_cases here : x = a
      · subst here
        by_cases there : x = b
        · subst there
          omega
        · rw [List.idxOf_cons_self, List.idxOf_cons_ne _ there]
          omega
      · by_cases there : x = b
        · subst there
          rw [List.idxOf_cons_self] at earlier
          omega
        · rw [List.idxOf_cons_ne _ here, List.idxOf_cons_ne _ there] at earlier ⊢
          have := ih (by omega)
          omega

theorem Precedes.erase (before : Precedes compare inserted a b) (ha : a ≠ t) (hb : b ≠ t) :
    Precedes compare (inserted.erase t) a b := by
  rcases before with below | ⟨level, earlier⟩
  · exact .inl below
  · exact .inr ⟨level, idxOf_erase_lt ha hb earlier⟩

/-- The order of two items does not depend on what was inserted before them. -/
theorem Precedes.cons {item a b : α} {rest : List α} (fresh : item ∉ rest) (ha : a ∈ rest)
    (hb : b ∈ rest) (before : Precedes compare rest a b) :
    Precedes compare (item :: rest) a b := by
  have not_a : item ≠ a := fun same => fresh (same ▸ ha)
  have not_b : item ≠ b := fun same => fresh (same ▸ hb)
  unfold Precedes at *
  rw [List.idxOf_cons_ne _ not_a, List.idxOf_cons_ne _ not_b]
  omega

theorem Precedes.head {item b : α} {rest : List α} (fresh : item ∉ rest) (hb : b ∈ rest)
    (le : compare item b ≤ 0) : Precedes compare (item :: rest) item b := by
  have not_b : item ≠ b := fun same => fresh (same ▸ hb)
  unfold Precedes
  rw [List.idxOf_cons_self, List.idxOf_cons_ne _ not_b]
  omega

/-- It comes before every other item. -/
theorem earliest_precedes (order : TotalPreorder compare) (once : inserted.Nodup)
    (found : earliest compare inserted = some t) :
    t ∈ inserted ∧ ∀ b ∈ inserted, b ≠ t → Precedes compare inserted t b := by
  induction inserted generalizing t with
  | nil => cases found
  | cons item rest ih =>
    obtain ⟨fresh, once⟩ := List.nodup_cons.mp once
    unfold earliest at found
    cases later : earliest compare rest with
    | none =>
      rw [later] at found
      cases found
      refine ⟨List.mem_cons_self, ?_⟩
      intro b hb other
      rw [earliest_eq_none later, List.mem_singleton] at hb
      exact absurd hb other
    | some other =>
      rw [later] at found
      obtain ⟨member, first⟩ := ih once later
      simp only at found
      split at found
      next below =>
        cases found
        refine ⟨List.mem_cons_of_mem _ member, ?_⟩
        intro b hb different
        rcases List.mem_cons.mp hb with rfl | hb
        · exact .inl below
        · exact .cons fresh member hb (first b hb different)
      next above =>
        cases found
        refine ⟨List.mem_cons_self, ?_⟩
        intro b hb different
        have hb := (List.mem_cons.mp hb).resolve_left different
        have level := order.le_of_not_lt above
        apply Precedes.head fresh hb
        by_cases same : b = other
        · subst same
          exact level
        · rcases first b hb same with below | ⟨equal, -⟩
          · exact order.trans _ _ _ level (by omega)
          · exact order.trans _ _ _ level (by omega)

end Order

/-- A call of a sorted list's operations; `element` is the address that `new` returns in it. -/
inductive SortedOp (α : Type) where
  | insert (element : Nat) (item : α)
  | remove (item : α)
  | removeFront

namespace SortedOp

variable {α : Type} [DecidableEq α] (compare : α → α → Int)

def step (fuel : Nat) (op : SortedOp α) (list : LinkedList α) :
    Option (Option α × LinkedList α) :=
  match op with
  | insert element item => (list.insert compare fuel element item).map fun after => (none, after)
  | remove item => (list.remove fuel item).map fun after => (none, after)
  | removeFront => list.removeFront.map fun result => (some result.1, result.2)

/-- The call on the items that are there, in the order in which they were inserted. -/
def spec (op : SortedOp α) (inserted : List α) : Option α × List α :=
  match op with
  | insert _ item => (none, inserted ++ [item])
  | remove item => (none, inserted.erase item)
  | removeFront =>
    (earliest compare inserted, (earliest compare inserted).elim inserted inserted.erase)

def legal (op : SortedOp α) (list : LinkedList α) (inserted : List α) : Prop :=
  match op with
  | insert element item => list.heap element = none ∧ item ∉ inserted
  | remove item => item ∈ inserted
  | removeFront => inserted ≠ []

/-- `SortedList<T>` as the items in the order of their insertion. -/
def component (fuel : Nat) : Component (SortedOp α) (LinkedList α) (List α) (Option α) :=
  ⟨step compare fuel, spec compare, legal⟩

end SortedOp

namespace LinkedList

variable {α : Type} [DecidableEq α] {compare : α → α → Int} {list : LinkedList α}
  {items inserted : List α} {item t : α} {fuel : Nat}

/-- The items are those inserted, each before all that it precedes. -/
def Ordered (compare : α → α → Int) (items inserted : List α) : Prop :=
  items.Perm inserted ∧ items.Pairwise (Precedes compare inserted)

theorem Ordered.place (order : TotalPreorder compare) (ordered : Ordered compare items inserted)
    (fresh : item ∉ inserted) :
    Ordered compare (place compare item items) (inserted ++ [item]) := by
  obtain ⟨perm, sorted⟩ := ordered
  constructor
  · exact (place_perm item items).trans
      ((perm.cons item).trans (List.perm_append_singleton _ _).symm)
  · have kept : items.Pairwise (Precedes compare (inserted ++ [item])) := by
      apply sorted.imp_of_mem
      intro a b ha hb before
      exact before.append (perm.mem_iff.mp ha) (perm.mem_iff.mp hb)
    apply place_pairwise (fun a b c first second => first.trans order second) _ _ kept
    · intro x hx below
      exact .inl below
    · intro x hx above
      have member := perm.mem_iff.mp hx
      have le := order.le_of_not_lt above
      have early := List.idxOf_lt_length_of_mem member
      unfold Precedes
      rw [List.idxOf_append_of_mem member, List.idxOf_append_of_notMem fresh]
      omega

theorem Ordered.erase (ordered : Ordered compare items inserted) (once : inserted.Nodup) (t : α) :
    Ordered compare (items.erase t) (inserted.erase t) := by
  obtain ⟨perm, sorted⟩ := ordered
  have once' : items.Nodup := perm.nodup_iff.mpr once
  refine ⟨perm.erase t, ?_⟩
  apply (sorted.sublist List.erase_sublist).imp_of_mem
  intro a b ha hb before
  exact before.erase (once'.mem_erase_iff.mp ha).1 (once'.mem_erase_iff.mp hb).1

/-- The front is the item that leaves first. -/
theorem Ordered.front (order : TotalPreorder compare)
    (ordered : Ordered compare (t :: items) inserted)
    (once : inserted.Nodup) : earliest compare inserted = some t := by
  obtain ⟨perm, sorted⟩ := ordered
  have member : t ∈ inserted := perm.mem_iff.mp List.mem_cons_self
  cases found : earliest compare inserted with
  | none =>
    rw [earliest_eq_none found] at member
    cases member
  | some other =>
    obtain ⟨there, first⟩ := earliest_precedes order once found
    by_contra different
    have different : other ≠ t := fun same => different (congrArg some same)
    have later : other ∈ items :=
      (List.mem_cons.mp (perm.mem_iff.mpr there)).resolve_left different
    have before := (List.pairwise_cons.mp sorted).1 other later
    exact before.asymm order (first t member (Ne.symm different))

/-- A sorted list with the items inserted, and room in the loops for `n` more. -/
def Sorted (compare : α → α → Int) (fuel n : Nat) (list : LinkedList α) (inserted : List α) : Prop :=
  (∃ items, list.Spells items ∧ Ordered compare items inserted) ∧ inserted.Nodup ∧
    inserted.length + n ≤ fuel

theorem sortedOp_simulates (order : TotalPreorder compare) (n : Nat) (op : SortedOp α)
    (list : LinkedList α) (inserted : List α) (sorted : list.Sorted compare fuel (n + 1) inserted)
    (legal : op.legal list inserted) :
    ∃ after, op.step compare fuel list = some ((op.spec compare inserted).1, after) ∧
      after.Sorted compare fuel n (op.spec compare inserted).2 := by
  obtain ⟨⟨items, ⟨nodes, rep, rfl⟩, ordered⟩, once, room⟩ := sorted
  have length := ordered.1.length_eq
  rw [List.length_map] at length
  have enough : nodes.length < fuel := by omega
  cases op with
  | insert element item =>
    obtain ⟨free, fresh⟩ := legal
    have absent : item ∉ nodes.map Prod.snd := fun member => fresh (ordered.1.mem_iff.mp member)
    obtain ⟨after, run, rep⟩ : ∃ after, list.insert compare fuel element item = some after ∧ _ :=
      rep.insert free absent enough
    refine ⟨after, by simp [SortedOp.step, SortedOp.spec, run], ⟨_, ⟨_, rep, rfl⟩, ?_⟩, ?_, ?_⟩
    · rw [placed_items]
      exact ordered.place order fresh
    · exact List.nodup_append'.mpr ⟨once, List.nodup_singleton _, by simpa using fresh⟩
    · simp only [SortedOp.spec, List.length_append, List.length_singleton]
      omega
  | remove item =>
    have once' := ordered.1.nodup_iff.mpr once
    have member := ordered.1.mem_iff.mpr legal
    obtain ⟨after, nodes', run, rep, left⟩ := rep.remove once' member (Nat.le_of_lt enough)
    refine ⟨after, by simp [SortedOp.step, SortedOp.spec, run], ⟨_, ⟨_, rep, left⟩, ?_⟩, ?_, ?_⟩
    · exact ordered.erase once item
    · exact once.erase item
    · have shorter := List.length_erase_le (a := item) (l := inserted)
      simp only [SortedOp.spec]
      omega
  | removeFront =>
    cases nodes with
    | nil =>
      have empty : inserted = [] := List.nil_perm.mp ordered.1
      exact absurd empty legal
    | cons node rest =>
      obtain ⟨a, x⟩ := node
      obtain ⟨after, run, rep⟩ := rep.removeFront
      have first : earliest compare inserted = some x := ordered.front order once
      have left := ordered.erase once x
      rw [List.map_cons, List.erase_cons_head] at left
      refine ⟨after, by simp [SortedOp.step, SortedOp.spec, run, first], ?_⟩
      simp only [SortedOp.spec, first, Option.elim_some]
      refine ⟨⟨_, ⟨_, rep, rfl⟩, left⟩, once.erase x, ?_⟩
      have shorter := List.length_erase_le (a := x) (l := inserted)
      omega

/-- A run of calls on a new sorted list: what is on the list is what was inserted and not
removed, lowest first, level items in the order of their insertion; the front is a lowest
item and the earliest of those; the fields pass the checks of the source. -/
theorem sorted_run_ordered (order : TotalPreorder compare) (ops : List (SortedOp α)) {fuel : Nat}
    (enough : ops.length ≤ fuel) (legal : (SortedOp.component compare fuel).Legal ops new []) :
    ∃ list items inserted answers,
      (SortedOp.component compare fuel).specRun ops [] = (answers, inserted) ∧
      (SortedOp.component compare fuel).run ops new = some (answers, list) ∧
      list.Shows fuel items ∧ items.Perm inserted ∧
      items.Pairwise (fun a b => compare a b ≤ 0) ∧
      items.Pairwise (fun a b => compare a b = 0 → inserted.idxOf a < inserted.idxOf b) ∧
      (inserted ≠ [] → ∃ thing after, list.removeFront = some (thing, after) ∧ thing ∈ inserted ∧
        ∀ b ∈ inserted, compare thing b ≤ 0 ∧
          (compare thing b = 0 → inserted.idxOf thing ≤ inserted.idxOf b)) ∧
      list.sortedSanityCheck compare fuel = some () := by
  have start : (new : LinkedList α).Sorted compare fuel ops.length [] :=
    ⟨⟨[], ⟨[], new_represents, rfl⟩, .refl _, .nil⟩, List.nodup_nil, by simpa using enough⟩
  obtain ⟨list, run, ⟨items, spells, ordered⟩, once, room⟩ :=
    Component.refines (sortedOp_simulates order) ops start legal
  have length : items.length ≤ fuel := by
    rw [ordered.1.length_eq]
    exact room
  have sorted : items.Pairwise (fun a b => compare a b ≤ 0) := by
    apply ordered.2.imp
    intro a b before
    rcases before with below | ⟨level, -⟩ <;> omega
  refine ⟨list, items, _, _, rfl, run, spells.shows length, ordered.1, sorted, ?_, ?_, ?_⟩
  · apply ordered.2.imp
    intro a b before level
    rcases before with below | ⟨-, earlier⟩
    · omega
    · exact earlier
  · intro nonempty
    obtain ⟨nodes, rep, rfl⟩ := spells
    cases nodes with
    | nil => exact absurd (List.nil_perm.mp ordered.1) nonempty
    | cons node rest =>
      obtain ⟨after, removed, -⟩ := rep.removeFront
      obtain ⟨member, first⟩ := earliest_precedes order once (ordered.front order once)
      refine ⟨node.2, after, removed, member, ?_⟩
      intro b hb
      by_cases same : b = node.2
      · have level := order.flip b b
        rw [same] at level ⊢
        exact ⟨by omega, fun _ => Nat.le_refl _⟩
      · rcases first b hb same with below | ⟨level, earlier⟩
        · exact ⟨by omega, fun level => by omega⟩
        · exact ⟨by omega, fun _ => Nat.le_of_lt earlier⟩
  · exact spells.sortedSanityCheck sorted length

/-- Of two items of the same rank the one that came first leaves first. -/
theorem sorted_run_ordered_level :
    ∃ list items, (SortedOp.component (fun a b : Nat => (a / 10 : Int) - b / 10) 4).run
        [.insert 0 31, .insert 1 12, .insert 2 15, .removeFront] new =
        some ([none, none, none, some 12], list) ∧
      list.Shows 4 items ∧ items.Perm [31, 15] := by
  have order : TotalPreorder (fun a b : Nat => (a / 10 : Int) - b / 10) :=
    ⟨fun a b => by omega, fun a b c => by omega⟩
  obtain ⟨list, items, inserted, answers, spec, run, shows, perm, -⟩ :=
    sorted_run_ordered order [.insert 0 31, .insert 1 12, .insert 2 15, .removeFront]
      (show _ ≤ 4 by decide)
      (.cons ⟨rfl, by decide⟩ rfl (.cons ⟨rfl, by decide⟩ rfl (.cons ⟨rfl, by decide⟩ rfl
        (.cons (show [31, 12, 15] ≠ [] by decide) rfl trivial))))
  have expected : _ = (([none, none, none, some 12], [31, 15]) : List (Option Nat) × List Nat) :=
    rfl
  cases expected.symm.trans spec
  exact ⟨list, items, run, shows, perm⟩

end LinkedList

end NachOS.Library
