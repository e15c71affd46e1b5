import NachOS.Lib.Chain
import NachOS.Lib.Component
import NachOS.Library.List

/-!
# List<T> on its elements (lib/list.cc, lib/list.h:43-137)

The list as the source has it: `first`, `last` and `numInList`, and the memory its
`ListElement`s live in. `new` takes the address it returns as an argument, `delete`
takes the element out of the memory. A loop is given `fuel` as the number of its
rounds. A call that does not return (an assertion fails, NULL or an address without an
element is dereferenced, a loop has not ended) is `none`.
-/
namespace NachOS.Library
open NachOS.Lib

abbrev ListElement (α : Type) := Cell α

structure LinkedList (α : Type) where
  /-- The elements by their address. -/
  heap : Heap α
  first : Option Nat
  last : Option Nat
  numInList : Int

namespace LinkedList

variable {α : Type}

/-- `List::List`. -/
def new : LinkedList α := ⟨fun _ => none, none, none, 0⟩

/-- `*ptr`. -/
def deref (list : LinkedList α) (ptr : Option Nat) : Option (ListElement α) :=
  ptr.bind list.heap

/-- `new ListElement<T>(item)` at the address `element`. -/
def newElement (list : LinkedList α) (element : Nat) (item : α) : LinkedList α :=
  { list with heap := Function.update list.heap element (some ⟨none, item⟩) }

/-- `ptr->next = next`. -/
def setNext (list : LinkedList α) (ptr next : Option Nat) : Option (LinkedList α) := do
  let address ← ptr
  let element ← list.heap address
  some { list with heap := Function.update list.heap address (some { element with next := next }) }

/-- `delete ptr`. -/
def delete (list : LinkedList α) (ptr : Option Nat) : Option (LinkedList α) := do
  let address ← ptr
  let _ ← list.heap address
  some { list with heap := Function.update list.heap address none }

/-- `first = element; last = element`: the list was empty. -/
def putOnly (list : LinkedList α) (element : Nat) : Option (LinkedList α) :=
  some { list with first := some element, last := some element }

/-- `last->next = element; last = element`. -/
def putLast (list : LinkedList α) (element : Nat) : Option (LinkedList α) := do
  let list ← list.setNext list.last (some element)
  some { list with last := some element }

/-- `element->next = first; first = element`. -/
def putFirst (list : LinkedList α) (element : Nat) : Option (LinkedList α) := do
  let list ← list.setNext (some element) list.first
  some { list with first := some element }

def isEmpty (list : LinkedList α) : Bool := list.numInList = 0

/-- `List::Front`. -/
def front (list : LinkedList α) : Option α := do
  let element ← list.deref list.first
  some element.item

/-- `List::RemoveFront`. -/
def removeFront (list : LinkedList α) : Option (α × LinkedList α) := do
  let element := list.first
  guard (list.isEmpty = false)
  let front ← list.deref list.first
  let thing := front.item
  let list ← if list.first = list.last then some { list with first := none, last := none }
    else do
      let removed ← list.deref element
      some { list with first := removed.next }
  let list := { list with numInList := list.numInList - 1 }
  let list ← list.delete element
  some (thing, list)

/-- `List::Remove` where it found the item: `next` is `ptr->next`. -/
def unlink (list : LinkedList α) (prev : Option Nat) (ptr : Nat) (next : Option Nat) :
    Option (LinkedList α) := do
  let list ← list.setNext prev next
  let before ← list.deref prev
  let list := if before.next = none then { list with last := prev } else list
  let list ← list.delete (some ptr)
  some { list with numInList := list.numInList - 1 }

section Items

variable [DecidableEq α]

/-- The loop of `List::IsInList` from `ptr` on. -/
def isInListFrom (heap : Heap α) (item : α) : Nat → Option Nat → Option Bool
  | _, none => some false
  | 0, some _ => none
  | fuel + 1, some ptr => do
    let element ← heap ptr
    if item = element.item then some true else isInListFrom heap item fuel element.next

/-- `List::IsInList`. -/
def isInList (list : LinkedList α) (fuel : Nat) (item : α) : Option Bool :=
  isInListFrom list.heap item fuel list.first

/-- The end of `Append`, `Prepend` and `Insert`: the item counts, and is found. -/
def inserted (list : LinkedList α) (fuel : Nat) (item : α) : Option (LinkedList α) := do
  let list := { list with numInList := list.numInList + 1 }
  guard ((← list.isInList fuel item) = true)
  some list

/-- `List::Append`. -/
def append (list : LinkedList α) (fuel element : Nat) (item : α) : Option (LinkedList α) := do
  let list := list.newElement element item
  guard ((← list.isInList fuel item) = false)
  let list ← if list.isEmpty then list.putOnly element else list.putLast element
  list.inserted fuel item

/-- `List::Prepend`. -/
def prepend (list : LinkedList α) (fuel element : Nat) (item : α) : Option (LinkedList α) := do
  let list := list.newElement element item
  guard ((← list.isInList fuel item) = false)
  let list ← if list.isEmpty then list.putOnly element else list.putFirst element
  list.inserted fuel item

/-- The loop of `List::Remove`, with the assertion that it finds the item. -/
def removeAfter (list : LinkedList α) (item : α) :
    Nat → Option Nat → Option Nat → Option (LinkedList α)
  | _, _, none => none
  | 0, _, some _ => none
  | fuel + 1, prev, some ptr => do
    let element ← list.heap ptr
    if item = element.item then list.unlink prev ptr element.next
    else list.removeAfter item fuel (some ptr) element.next

/-- `List::Remove`. -/
def remove (list : LinkedList α) (fuel : Nat) (item : α) : Option (LinkedList α) := do
  guard ((← list.isInList fuel item) = true)
  let front ← list.deref list.first
  let list ← if item = front.item then do
      let (removed, list) ← list.removeFront
      guard (item = removed)
      some list
    else list.removeAfter item fuel list.first front.next
  guard ((← list.isInList fuel item) = false)
  some list

end Items

/-- The loop of `List::SanityCheck`: the elements from `ptr` up to `last`, counted. -/
def sanityWalk (list : LinkedList α) : Nat → Int → Option Nat → Option Int
  | fuel, numFound, ptr =>
    if ptr = list.last then some numFound
    else match fuel with
      | 0 => none
      | fuel + 1 => do
        guard (numFound + 1 ≤ list.numInList)
        let element ← list.deref ptr
        list.sanityWalk fuel (numFound + 1) element.next

/-- `List::SanityCheck`. -/
def sanityCheck (list : LinkedList α) (fuel : Nat) : Option Unit :=
  if list.first = none then guard (list.numInList = 0 ∧ list.last = none)
  else if list.first = list.last then do
    guard (list.numInList = 1)
    let last ← list.deref list.last
    guard (last.next = none)
  else do
    let numFound ← list.sanityWalk fuel 1 list.first
    guard (numFound = list.numInList)
    let last ← list.deref list.last
    guard (last.next = none)

/-- What `first`, `last` and `numInList` have to be for the nodes in the memory. -/
structure Represents (list : LinkedList α) (nodes : List (Nat × α)) : Prop where
  chain : Chain list.heap list.first nodes
  last : list.last = nodes.getLast?.map Prod.fst
  count : list.numInList = nodes.length

/-- The items of the list, front first. -/
def Spells (list : LinkedList α) (items : List α) : Prop :=
  ∃ nodes, list.Represents nodes ∧ nodes.map Prod.snd = items

theorem guard_holds {p : Prop} [Decidable p] (h : p) : (guard p : Option Unit) = some () :=
  if_pos h

variable {list : LinkedList α} {nodes left right : List (Nat × α)} {a b element fuel : Nat}
  {item x y : α}

theorem new_represents : (new : LinkedList α).Represents [] where
  chain := Chain.empty
  last := rfl
  count := rfl

namespace Represents

theorem isEmpty_iff (rep : list.Represents nodes) : list.isEmpty = true ↔ nodes = [] := by
  have count := rep.count
  unfold isEmpty
  rw [decide_eq_true_iff, ← List.length_eq_zero_iff]
  omega

theorem first_eq (rep : list.Represents nodes) : list.first = start nodes := rep.chain.start_eq

theorem last_concat (rep : list.Represents (left ++ [(a, x)])) : list.last = some a := by
  rw [rep.last, List.getLast?_concat]
  rfl

end Represents

/-- An element whose contents are known is written. -/
theorem setNext_some {ptr : Nat} {next next' : Option Nat} (cell : list.heap ptr = some ⟨next, x⟩) :
    list.setNext (some ptr) next' =
      some { list with heap := Function.update list.heap ptr (some ⟨next', x⟩) } := by
  simp [setNext, cell]

/-- The front element of two or more, and of one. -/
theorem Represents.removeFront (rep : list.Represents ((a, x) :: nodes)) :
    ∃ list', list.removeFront = some (x, list') ∧ list'.Represents nodes := by
  have cell : list.heap a = some ⟨start nodes, x⟩ := rep.chain.cell_front
  have nonempty : list.isEmpty = false := by
    rw [← Bool.not_eq_true, rep.isEmpty_iff]
    exact List.cons_ne_nil _ _
  have first : list.first = some a := rep.first_eq
  have count := rep.count
  have last := rep.last
  have dropped := rep.chain.dropFront
  unfold LinkedList.removeFront
  rw [guard_holds nonempty]
  simp only [deref, first, Option.bind_eq_bind, Option.bind_some, cell]
  rcases List.eq_nil_or_concat' nodes with rfl | ⟨rest, ⟨b, y⟩, rfl⟩
  · -- the only element: `first == last`
    have same : list.last = some a := last
    rw [if_pos same.symm]
    simp only [delete, Option.bind_eq_bind, Option.bind_some, cell]
    refine ⟨_, rfl, ?_⟩
    exact ⟨dropped, rfl, by simp [count]⟩
  · have lastly : list.last = some b := by
      rw [last, ← List.cons_append, List.getLast?_concat]
      rfl
    have other : (some a : Option Nat) ≠ some b := by
      intro same
      have apart := (List.nodup_cons.mp rep.chain.distinct).1
      apply apart
      rw [Option.some.inj same]
      simp
    rw [lastly, if_neg other]
    simp only [delete, Option.bind_eq_bind, Option.bind_some, cell]
    refine ⟨_, rfl, ?_⟩
    refine ⟨dropped, ?_, ?_⟩
    · simp
    · simp only [count, List.length_cons]
      omega

theorem Represents.unlink (rep : list.Represents (left ++ (a, x) :: (b, y) :: right)) :
    ∃ list', list.unlink (some a) b (start right) = some list' ∧
      list'.Represents (left ++ (a, x) :: right) := by
  have cell_a : list.heap a = some ⟨some b, x⟩ := rep.chain.cell
  have cell_b : list.heap b = some ⟨start right, y⟩ := by
    have chain := rep.chain
    rw [List.append_cons] at chain
    exact chain.cell
  have other : b ≠ a := by
    obtain ⟨-, -, -, apart⟩ := rep.chain.split
    intro same
    apply apart
    simp [same]
  have kept : Function.update list.heap a (some ⟨start right, x⟩) b = some ⟨start right, y⟩ := by
    rw [Function.update_of_ne other, cell_b]
  have chain := rep.chain.unlinkAfter
  have last := rep.last
  have counts : list.numInList - 1 = ((left ++ (a, x) :: right).length : Int) := by
    simp only [rep.count, List.length_append, List.length_cons]
    omega
  unfold LinkedList.unlink
  rw [setNext_some cell_a]
  simp only [deref, delete, Option.bind_eq_bind, Option.bind_some, Function.update_self]
  cases right with
  | nil =>
    -- the element was the last one
    simp only [start_nil, if_true] at kept ⊢
    rw [kept]
    refine ⟨_, rfl, chain, ?_, counts⟩
    rw [List.getLast?_concat]
    rfl
  | cons node rest =>
    obtain ⟨c, z⟩ := node
    simp only [start_cons, reduceCtorEq, if_false] at kept ⊢
    rw [kept]
    refine ⟨_, rfl, chain, ?_, counts⟩
    rw [last]
    simp [List.getLast?_append, List.getLast?_cons_cons]

/-- The links are those of the nodes, and the item linked last does not count yet. -/
structure Linked (list : LinkedList α) (nodes : List (Nat × α)) : Prop where
  chain : Chain list.heap list.first nodes
  last : list.last = nodes.getLast?.map Prod.fst
  count : list.numInList + 1 = nodes.length

theorem Represents.isEmpty_newElement (rep : list.Represents nodes) :
    (list.newElement element item).isEmpty = true ↔ nodes = [] :=
  rep.isEmpty_iff

theorem Represents.putOnly (rep : list.Represents []) (free : list.heap element = none) (item : α) :
    ∃ after, (list.newElement element item).putOnly element = some after ∧
      after.Linked [(element, item)] := by
  have null : list.first = none := rep.first_eq
  have chain := rep.chain.pushFront free (x := item)
  rw [null] at chain
  exact ⟨_, rfl, chain, rfl, by simp [newElement, rep.count]⟩

theorem Represents.putFirst (rep : list.Represents nodes) (free : list.heap element = none)
    (nonempty : nodes ≠ []) (item : α) :
    ∃ after, (list.newElement element item).putFirst element = some after ∧
      after.Linked ((element, item) :: nodes) := by
  have cell : (list.newElement element item).heap element = some ⟨none, item⟩ :=
    Function.update_self ..
  have chain := rep.chain.pushFront free (x := item)
  have heap : Function.update (list.newElement element item).heap element
      (some ⟨list.first, item⟩) = Function.update list.heap element (some ⟨list.first, item⟩) :=
    Function.update_idem ..
  rw [← heap] at chain
  unfold LinkedList.putFirst
  rw [setNext_some cell]
  refine ⟨_, rfl, chain, ?_, ?_⟩
  · cases nodes with
    | nil => exact absurd rfl nonempty
    | cons node rest => exact rep.last.trans (by rw [List.getLast?_cons_cons])
  · simp [newElement, rep.count]

theorem Represents.putLast (rep : list.Represents nodes) (free : list.heap element = none)
    (nonempty : nodes ≠ []) (item : α) :
    ∃ after, (list.newElement element item).putLast element = some after ∧
      after.Linked (nodes ++ [(element, item)]) := by
  rcases List.eq_nil_or_concat' nodes with rfl | ⟨left, ⟨a, x⟩, rfl⟩
  · exact absurd rfl nonempty
  · have last : (list.newElement element item).last = some a := rep.last_concat
    have chain := rep.chain.insertAfter free (y := item)
    have other : a ≠ element := by
      intro same
      apply rep.chain.apart free
      simp [same]
    have cell : (list.newElement element item).heap a = some ⟨none, x⟩ :=
      (Function.update_of_ne other _ _).trans rep.chain.cell
    unfold LinkedList.putLast
    rw [last, setNext_some cell]
    refine ⟨_, rfl, ?_, ?_, ?_⟩
    · rw [List.append_assoc]
      exact chain
    · rw [List.getLast?_concat]
      rfl
    · rw [List.length_append]
      exact congrArg (· + 1) rep.count

section Items

variable [DecidableEq α]

theorem isInListFrom_segment {heap : Heap α} {p : Option Nat} (segment : Segment heap p nodes none)
    (enough : nodes.length ≤ fuel) :
    isInListFrom heap item fuel p = some (decide (item ∈ nodes.map Prod.snd)) := by
  induction nodes generalizing p fuel with
  | nil =>
    have null : p = none := segment
    rw [null]
    simp [isInListFrom]
  | cons node rest ih =>
    obtain ⟨a, x⟩ := node
    obtain ⟨rfl, next, cell, segment⟩ := segment
    cases fuel with
    | zero => simp at enough
    | succ fuel =>
      have later := ih segment (Nat.le_of_succ_le_succ enough)
      by_cases here : item = x
      · simp [isInListFrom, cell, here]
      · simp [isInListFrom, cell, here, later]

theorem Represents.isInList (rep : list.Represents nodes) (enough : nodes.length ≤ fuel) :
    list.isInList fuel item = some (decide (item ∈ nodes.map Prod.snd)) :=
  isInListFrom_segment rep.chain.linked enough

/-- The question before an insertion: the new element is not on the list yet. -/
theorem Represents.isInList_newElement (rep : list.Represents nodes) (item : α)
    (free : list.heap element = none) (enough : nodes.length ≤ fuel) :
    (list.newElement element item).isInList fuel item =
      some (decide (item ∈ nodes.map Prod.snd)) := by
  have apart := rep.chain.apart free
  have segment := rep.chain.linked.update (some ⟨none, item⟩) apart
  exact isInListFrom_segment segment enough

/-- The end of an insertion. -/
theorem inserted_represents {list' : LinkedList α} (linked : list'.Linked nodes)
    (member : item ∈ nodes.map Prod.snd) (enough : nodes.length ≤ fuel) :
    ∃ after, list'.inserted fuel item = some after ∧ after.Represents nodes := by
  have rep : Represents { list' with numInList := list'.numInList + 1 } nodes :=
    ⟨linked.chain, linked.last, linked.count⟩
  have found : isInList { list' with numInList := list'.numInList + 1 } fuel item = some true := by
    rw [rep.isInList enough, decide_eq_true member]
  refine ⟨_, ?_, rep⟩
  unfold inserted
  simp only [Option.bind_eq_bind, found, Option.bind_some]
  rw [guard_holds trivial]
  rfl

theorem Represents.append (rep : list.Represents nodes) (free : list.heap element = none)
    (fresh : item ∉ nodes.map Prod.snd) (enough : nodes.length < fuel) :
    ∃ list', list.append fuel element item = some list' ∧
      list'.Represents (nodes ++ [(element, item)]) := by
  have absent := rep.isInList_newElement item free (Nat.le_of_lt enough)
  rw [decide_eq_false fresh] at absent
  have member : item ∈ (nodes ++ [(element, item)]).map Prod.snd := by simp
  have length : (nodes ++ [(element, item)]).length ≤ fuel := by
    rw [List.length_append]
    exact enough
  unfold LinkedList.append
  simp only [Option.bind_eq_bind, absent, Option.bind_some]
  rw [guard_holds trivial, Option.bind_some]
  by_cases empty : nodes = []
  · rw [if_pos (rep.isEmpty_newElement.mpr empty)]
    subst empty
    obtain ⟨list', run, linked⟩ := rep.putOnly free item
    rw [run]
    exact inserted_represents linked member length
  · rw [if_neg (fun none => empty (rep.isEmpty_newElement.mp none))]
    obtain ⟨list', run, linked⟩ := rep.putLast free empty item
    rw [run]
    exact inserted_represents linked member length

theorem Represents.prepend (rep : list.Represents nodes) (free : list.heap element = none)
    (fresh : item ∉ nodes.map Prod.snd) (enough : nodes.length < fuel) :
    ∃ list', list.prepend fuel element item = some list' ∧
      list'.Represents ((element, item) :: nodes) := by
  have absent := rep.isInList_newElement item free (Nat.le_of_lt enough)
  rw [decide_eq_false fresh] at absent
  have member : item ∈ ((element, item) :: nodes).map Prod.snd := List.mem_cons_self
  unfold LinkedList.prepend
  simp only [Option.bind_eq_bind, absent, Option.bind_some]
  rw [guard_holds trivial, Option.bind_some]
  by_cases empty : nodes = []
  · rw [if_pos (rep.isEmpty_newElement.mpr empty)]
    subst empty
    obtain ⟨list', run, linked⟩ := rep.putOnly free item
    rw [run]
    exact inserted_represents linked member enough
  · rw [if_neg (fun none => empty (rep.isEmpty_newElement.mp none))]
    obtain ⟨list', run, linked⟩ := rep.putFirst free empty item
    rw [run]
    exact inserted_represents linked member enough

/-- The loop of `Remove`, from the element behind a node on. -/
theorem Represents.removeAfter {rest : List (Nat × α)}
    (rep : list.Represents (left ++ (a, x) :: rest)) (member : item ∈ rest.map Prod.snd)
    (enough : rest.length ≤ fuel) :
    ∃ before b after list', rest = before ++ (b, item) :: after ∧ item ∉ before.map Prod.snd ∧
      list.removeAfter item fuel (some a) (start rest) = some list' ∧
      list'.Represents (left ++ (a, x) :: (before ++ after)) := by
  induction rest generalizing left a x fuel with
  | nil => cases member
  | cons node after ih =>
    obtain ⟨b, y⟩ := node
    have regroup : left ++ (a, x) :: (b, y) :: after = (left ++ [(a, x)]) ++ (b, y) :: after := by
      simp
    have next : list.Represents ((left ++ [(a, x)]) ++ (b, y) :: after) := regroup ▸ rep
    have cell_a : list.heap a = some ⟨some b, x⟩ := rep.chain.cell
    have cell_b := next.chain.cell
    cases fuel with
    | zero => simp at enough
    | succ fuel =>
      rw [start_cons]
      unfold LinkedList.removeAfter
      simp only [cell_b, Option.bind_eq_bind, Option.bind_some]
      by_cases here : item = y
      · subst here
        rw [if_pos rfl]
        obtain ⟨list', run, rep'⟩ := rep.unlink
        exact ⟨[], b, after, list', rfl, List.not_mem_nil, run, rep'⟩
      · rw [if_neg here]
        have later : item ∈ after.map Prod.snd := by
          rcases List.mem_cons.mp member with same | member
          · exact absurd same here
          · exact member
        obtain ⟨before, c, rest, list', split, absent, run, rep'⟩ :=
          ih next later (Nat.le_of_succ_le_succ enough)
        refine ⟨(b, y) :: before, c, rest, list', ?_, ?_, run, ?_⟩
        · rw [split, List.cons_append]
        · simp [here, absent]
        · simpa using rep'

/-- An item occurs once: what is left does not have it. -/
theorem Represents.remove (rep : list.Represents nodes) (once : (nodes.map Prod.snd).Nodup)
    (member : item ∈ nodes.map Prod.snd) (enough : nodes.length ≤ fuel) :
    ∃ list' nodes', list.remove fuel item = some list' ∧ list'.Represents nodes' ∧
      nodes'.map Prod.snd = (nodes.map Prod.snd).erase item := by
  have found : list.isInList fuel item = some true := by
    rw [rep.isInList enough, decide_eq_true member]
  have gone : ∀ {nodes' : List (Nat × α)} {list' : LinkedList α}, list'.Represents nodes' →
      nodes'.map Prod.snd = (nodes.map Prod.snd).erase item → nodes'.length ≤ fuel →
      list'.isInList fuel item = some false := by
    intro nodes' list' rep' items enough'
    rw [rep'.isInList enough', items, decide_eq_false once.not_mem_erase]
  cases nodes with
  | nil => cases member
  | cons node rest =>
    obtain ⟨a, x⟩ := node
    have first : list.first = some a := rep.first_eq
    have cell := rep.chain.cell_front
    unfold LinkedList.remove
    simp only [Option.bind_eq_bind, found, Option.bind_some, deref, first, cell]
    rw [guard_holds trivial, Option.bind_some]
    by_cases here : item = x
    · subst here
      obtain ⟨list', run, rep'⟩ := rep.removeFront
      have items : rest.map Prod.snd = (((a, item) :: rest).map Prod.snd).erase item := by simp
      have absent := gone rep' items (Nat.le_of_succ_le enough)
      rw [if_pos rfl, run]
      simp only [Option.bind_some]
      rw [guard_holds trivial]
      simp only [Option.bind_some, absent]
      exact ⟨list', rest, rfl, rep', items⟩
    · rw [if_neg here]
      have later : item ∈ rest.map Prod.snd := by
        rcases List.mem_cons.mp member with same | member
        · exact absurd same here
        · exact member
      have inner : list.Represents ([] ++ (a, x) :: rest) := rep
      obtain ⟨before, b, after, list', split, absent, run, rep'⟩ :=
        inner.removeAfter later (Nat.le_of_succ_le enough)
      have items : ((a, x) :: (before ++ after)).map Prod.snd =
          (((a, x) :: rest).map Prod.snd).erase item := by
        rw [split, List.map_cons, List.map_cons, List.erase_cons_tail (by simpa using Ne.symm here)]
        simp [List.erase_append_right _ absent]
      have shorter : ((a, x) :: (before ++ after)).length ≤ fuel := by
        rw [split] at enough
        simp only [List.length_cons, List.length_append] at enough ⊢
        omega
      have absent' := gone rep' items shorter
      rw [run]
      simp only [Option.bind_some, absent']
      exact ⟨list', _, rfl, rep', items⟩

end Items

theorem Represents.front (rep : list.Represents ((a, x) :: nodes)) : list.front = some x := by
  have first : list.first = some a := rep.first_eq
  simp [LinkedList.front, deref, first, rep.chain.cell_front]

/-- The loop of `SanityCheck` counts the nodes that are left. -/
theorem Represents.sanityWalk (rep : list.Represents (left ++ (a, x) :: right))
    (enough : right.length ≤ fuel) :
    list.sanityWalk fuel (left.length + 1) (some a) = some list.numInList := by
  induction right generalizing left a x fuel with
  | nil =>
    have last : list.last = some a := rep.last_concat
    have count := rep.count
    unfold LinkedList.sanityWalk
    rw [if_pos last.symm, count]
    simp
  | cons node rest ih =>
    obtain ⟨b, y⟩ := node
    have cell : list.heap a = some ⟨some b, x⟩ := rep.chain.cell
    have next : list.Represents ((left ++ [(a, x)]) ++ (b, y) :: rest) := by
      rw [List.append_cons] at rep
      exact rep
    have other : some a ≠ list.last := by
      obtain ⟨-, -, -, apart⟩ := rep.chain.split
      intro same
      rw [rep.last, List.getLast?_append_cons, List.getLast?_cons_cons] at same
      apply apart
      obtain ⟨⟨c, z⟩, lastly, at_c⟩ := Option.map_eq_some_iff.mp same.symm
      exact List.mem_map.mpr ⟨(c, z), List.mem_of_getLast? lastly, at_c⟩
    cases fuel with
    | zero => simp at enough
    | succ fuel =>
      have more : (left.length : Int) + 1 + 1 ≤ list.numInList := by
        simp only [rep.count, List.length_append, List.length_cons]
        omega
      have later := ih next (Nat.le_of_succ_le_succ enough)
      unfold LinkedList.sanityWalk
      rw [if_neg other]
      simp only [deref, Option.bind_eq_bind, Option.bind_some, cell]
      rw [guard_holds more, Option.bind_some]
      simpa using later

theorem Represents.sanityCheck (rep : list.Represents nodes) (enough : nodes.length ≤ fuel) :
    list.sanityCheck fuel = some () := by
  unfold LinkedList.sanityCheck
  rcases List.eq_nil_or_concat' nodes with rfl | ⟨left, ⟨b, y⟩, rfl⟩
  · have first : list.first = none := rep.first_eq
    rw [if_pos first]
    exact guard_holds ⟨rep.count, rep.last⟩
  · have last : list.last = some b := rep.last_concat
    have cell : list.heap b = some ⟨none, y⟩ := rep.chain.cell
    cases left with
    | nil =>
      have first : list.first = some b := rep.first_eq
      rw [if_neg (by simp [first]), if_pos (first.trans last.symm)]
      have count : list.numInList = 1 := rep.count
      rw [guard_holds count]
      simp [deref, last, cell]
    | cons node left =>
      obtain ⟨a, x⟩ := node
      have first : list.first = some a := rep.first_eq
      have other : list.first ≠ list.last := by
        have apart := (List.nodup_cons.mp rep.chain.distinct).1
        rw [first, last]
        intro same
        apply apart
        rw [Option.some.inj same]
        simp
      have inner : list.Represents ([] ++ (a, x) :: (left ++ [(b, y)])) := rep
      have walk := inner.sanityWalk (Nat.le_of_succ_le enough)
      rw [if_neg (by simp [first]), if_neg other, first]
      simp only [List.length_nil, Int.ofNat_zero, Int.zero_add] at walk
      simp [walk, deref, last, cell]

end LinkedList

/-- `ListIterator<T>`, on the elements of `list`. -/
structure ListIterator where
  current : Option Nat

namespace ListIterator

variable {α : Type}

def new (list : LinkedList α) : ListIterator := ⟨list.first⟩

def isDone (iterator : ListIterator) : Bool := iterator.current = none

def item (iterator : ListIterator) (list : LinkedList α) : Option α := do
  guard (iterator.isDone = false)
  let element ← list.deref iterator.current
  some element.item

def next (iterator : ListIterator) (list : LinkedList α) : Option ListIterator := do
  let element ← list.deref iterator.current
  some ⟨element.next⟩

/-- `for (; !IsDone(); Next())` with the items that `Item()` gives. -/
def items (list : LinkedList α) : Nat → ListIterator → Option (List α)
  | 0, iterator => if iterator.isDone then some [] else none
  | fuel + 1, iterator =>
    if iterator.isDone then some []
    else do
      let item ← iterator.item list
      let iterator ← iterator.next list
      let rest ← items list fuel iterator
      some (item :: rest)

/-- A loop over an iterator whose body may return from the function it is in. -/
def loop {β : Type} (list : LinkedList α) (body : α → Option (Option β)) :
    Nat → ListIterator → Option (Option β)
  | 0, iterator => if iterator.isDone then some none else none
  | fuel + 1, iterator =>
    if iterator.isDone then some none
    else do
      let item ← iterator.item list
      match ← body item with
      | some result => some (some result)
      | none => do
        let iterator ← iterator.next list
        loop list body fuel iterator

/-- The same loop over the items. -/
def loopItems {β : Type} (body : α → Option (Option β)) : List α → Option (Option β)
  | [] => some none
  | item :: rest => do
    match ← body item with
    | some result => some (some result)
    | none => loopItems body rest

theorem loop_segment {β : Type} {list : LinkedList α} {nodes : List (Nat × α)} {p : Option Nat}
    {fuel : Nat} (body : α → Option (Option β)) (segment : Segment list.heap p nodes none)
    (enough : nodes.length ≤ fuel) :
    loop list body fuel ⟨p⟩ = loopItems body (nodes.map Prod.snd) := by
  induction nodes generalizing p fuel with
  | nil =>
    have null : p = none := segment
    cases fuel <;> simp [loop, loopItems, isDone, null]
  | cons node rest ih =>
    obtain ⟨a, x⟩ := node
    obtain ⟨rfl, next, cell, segment⟩ := segment
    cases fuel with
    | zero => simp at enough
    | succ fuel =>
      have later := ih segment (Nat.le_of_succ_le_succ enough)
      simp [loop, loopItems, isDone, item, ListIterator.next, LinkedList.deref, cell, later]

/-- A loop that returns the first item of a kind. -/
theorem loopItems_find (p : α → Bool) (items : List α) :
    loopItems (fun item => some (if p item then some item else none)) items =
      some (items.find? p) := by
  induction items with
  | nil => rfl
  | cons item rest ih =>
    simp only [loopItems, Option.bind_eq_bind, Option.bind_some, List.find?_cons]
    cases p item with
    | true => rfl
    | false => exact ih

/-- A loop that checks every item. -/
theorem loopItems_check {check : α → Option Unit} {items : List α}
    (passes : ∀ item ∈ items, check item = some ()) :
    loopItems (fun item => (check item).map fun _ => (none : Option Unit)) items = some none := by
  induction items with
  | nil => rfl
  | cons item rest ih =>
    have here := passes item List.mem_cons_self
    have later := ih fun other member => passes other (List.mem_cons_of_mem _ member)
    simp only [loopItems, Option.bind_eq_bind, here, Option.map_some, Option.bind_some]
    exact later

theorem items_segment {list : LinkedList α} {nodes : List (Nat × α)} {p : Option Nat} {fuel : Nat}
    (segment : Segment list.heap p nodes none) (enough : nodes.length ≤ fuel) :
    items list fuel ⟨p⟩ = some (nodes.map Prod.snd) := by
  induction nodes generalizing p fuel with
  | nil =>
    have null : p = none := segment
    cases fuel <;> simp [items, isDone, null]
  | cons node rest ih =>
    obtain ⟨a, x⟩ := node
    obtain ⟨rfl, next, cell, segment⟩ := segment
    cases fuel with
    | zero => simp at enough
    | succ fuel =>
      have later := ih segment (Nat.le_of_succ_le_succ enough)
      simp [items, isDone, item, ListIterator.next, LinkedList.deref, cell, later]

end ListIterator

namespace LinkedList.Spells

variable {α : Type} {list : LinkedList α} {items : List α} {element fuel : Nat} {item : α}

theorem isEmpty_iff (spells : list.Spells items) : list.isEmpty = true ↔ items = [] := by
  obtain ⟨nodes, rep, rfl⟩ := spells
  rw [rep.isEmpty_iff, List.map_eq_nil_iff]

theorem numInList (spells : list.Spells items) : list.numInList = items.length := by
  obtain ⟨nodes, rep, rfl⟩ := spells
  rw [rep.count, List.length_map]

theorem exists_free (spells : list.Spells items) : ∃ address, list.heap address = none := by
  obtain ⟨nodes, rep, rfl⟩ := spells
  exact rep.chain.exists_free

theorem removeFront (spells : list.Spells (item :: items)) :
    ∃ list', list.removeFront = some (item, list') ∧ list'.Spells items := by
  obtain ⟨nodes, rep, spelled⟩ := spells
  cases nodes with
  | nil => cases spelled
  | cons node rest =>
    cases spelled
    obtain ⟨list', run, rep⟩ := rep.removeFront
    exact ⟨list', run, rest, rep, rfl⟩

/-- `RemoveFront` on the elements is `RemoveFront` on the sequence. -/
theorem removeFront_refines (spells : list.Spells items) :
    Option.Rel (fun result expected => result.1 = expected.1 ∧ result.2.Spells expected.2)
      list.removeFront (Library.removeFront items) := by
  cases items with
  | nil =>
    have empty : list.isEmpty = true := spells.isEmpty_iff.mpr rfl
    have aborts : list.removeFront = none := by simp [LinkedList.removeFront, empty]
    rw [aborts]
    exact .none
  | cons item items =>
    obtain ⟨list', run, spells'⟩ := spells.removeFront
    rw [run]
    exact .some ⟨rfl, spells'⟩

theorem sanityCheck (spells : list.Spells items) (enough : items.length ≤ fuel) :
    list.sanityCheck fuel = some () := by
  obtain ⟨nodes, rep, rfl⟩ := spells
  rw [List.length_map] at enough
  exact rep.sanityCheck enough

theorem loop {β : Type} (body : α → Option (Option β)) (spells : list.Spells items)
    (enough : items.length ≤ fuel) :
    ListIterator.loop list body fuel (ListIterator.new list) =
      ListIterator.loopItems body items := by
  obtain ⟨nodes, rep, rfl⟩ := spells
  rw [List.length_map] at enough
  exact ListIterator.loop_segment body rep.chain.linked enough

variable [DecidableEq α]

theorem append (spells : list.Spells items) (free : list.heap element = none)
    (fresh : item ∉ items) (enough : items.length < fuel) :
    ∃ list', list.append fuel element item = some list' ∧ list'.Spells (items ++ [item]) := by
  obtain ⟨nodes, rep, rfl⟩ := spells
  rw [List.length_map] at enough
  obtain ⟨list', run, rep⟩ := rep.append free fresh enough
  exact ⟨list', run, _, rep, by simp⟩

/-- `Append` on the elements is `Append` on the sequence: both abort for an item that is
there. -/
theorem append_refines (spells : list.Spells items) (item : α) (free : list.heap element = none)
    (enough : items.length < fuel) :
    Option.Rel Spells (list.append fuel element item) (Library.append items item) := by
  by_cases member : item ∈ items
  · have aborts : list.append fuel element item = none := by
      obtain ⟨nodes, rep, rfl⟩ := spells
      rw [List.length_map] at enough
      have present := rep.isInList_newElement item free (Nat.le_of_lt enough)
      rw [decide_eq_true member] at present
      simp [LinkedList.append, present]
    rw [aborts, Library.append, if_pos member]
    exact .none
  · obtain ⟨list', run, spells'⟩ := spells.append free member enough
    rw [run, append_fresh member]
    exact .some spells'

theorem prepend (spells : list.Spells items) (free : list.heap element = none)
    (fresh : item ∉ items) (enough : items.length < fuel) :
    ∃ list', list.prepend fuel element item = some list' ∧ list'.Spells (item :: items) := by
  obtain ⟨nodes, rep, rfl⟩ := spells
  rw [List.length_map] at enough
  obtain ⟨list', run, rep⟩ := rep.prepend free fresh enough
  exact ⟨list', run, _, rep, rfl⟩

theorem remove (spells : list.Spells items) (once : items.Nodup) (member : item ∈ items)
    (enough : items.length ≤ fuel) :
    ∃ list', list.remove fuel item = some list' ∧ list'.Spells (items.erase item) := by
  obtain ⟨nodes, rep, rfl⟩ := spells
  rw [List.length_map] at enough
  obtain ⟨list', nodes', run, rep, left⟩ := rep.remove once member enough
  exact ⟨list', run, nodes', rep, left⟩

end LinkedList.Spells

/-- A call of a list's operations; `element` is the address that `new` returns in it. -/
inductive ListOp (α : Type) where
  | append (element : Nat) (item : α)
  | prepend (element : Nat) (item : α)
  | remove (item : α)
  | removeFront

namespace ListOp

variable {α : Type} [DecidableEq α]

/-- The call on the linked elements; `RemoveFront` has an answer. -/
def step (fuel : Nat) (op : ListOp α) (list : LinkedList α) : Option (Option α × LinkedList α) :=
  match op with
  | append element item => (list.append fuel element item).map fun after => (none, after)
  | prepend element item => (list.prepend fuel element item).map fun after => (none, after)
  | remove item => (list.remove fuel item).map fun after => (none, after)
  | removeFront => list.removeFront.map fun result => (some result.1, result.2)

/-- The call on the sequence of the items. -/
def spec (op : ListOp α) (items : List α) : Option α × List α :=
  match op with
  | append _ item => (none, items ++ [item])
  | prepend _ item => (none, item :: items)
  | remove item => (none, items.erase item)
  | removeFront => (items.head?, items.tail)

/-- `new` returns memory that is not in use; items are put on a list they are not on,
taken from a list they are on, and a front is taken from a list that has one. -/
def legal (op : ListOp α) (list : LinkedList α) (items : List α) : Prop :=
  match op with
  | append element item => list.heap element = none ∧ item ∉ items
  | prepend element item => list.heap element = none ∧ item ∉ items
  | remove item => item ∈ items
  | removeFront => items ≠ []

/-- `List<T>` as a sequence. -/
def component (fuel : Nat) : Component (ListOp α) (LinkedList α) (List α) (Option α) :=
  ⟨step fuel, spec, legal⟩

end ListOp

namespace LinkedList

variable {α : Type} [DecidableEq α] {list : LinkedList α} {items : List α} {fuel : Nat}

/-- A list whose items are distinct, with room in the loops for `n` more. -/
def Within (fuel n : Nat) (list : LinkedList α) (items : List α) : Prop :=
  list.Spells items ∧ items.Nodup ∧ items.length + n ≤ fuel

/-- Every operation does to the elements what it does to the sequence. -/
theorem listOp_simulates (n : Nat) (op : ListOp α) (list : LinkedList α) (items : List α)
    (within : list.Within fuel (n + 1) items) (legal : op.legal list items) :
    ∃ after, op.step fuel list = some ((op.spec items).1, after) ∧
      after.Within fuel n (op.spec items).2 := by
  obtain ⟨spells, once, room⟩ := within
  have enough : items.length < fuel := by omega
  cases op with
  | append element item =>
    obtain ⟨free, fresh⟩ := legal
    obtain ⟨after, run, spells⟩ := spells.append free fresh enough
    refine ⟨after, by simp [ListOp.step, ListOp.spec, run], spells, ?_, ?_⟩
    · exact List.nodup_append'.mpr ⟨once, List.nodup_singleton _, by simpa using fresh⟩
    · simp only [ListOp.spec, List.length_append, List.length_singleton]
      omega
  | prepend element item =>
    obtain ⟨free, fresh⟩ := legal
    obtain ⟨after, run, spells⟩ := spells.prepend free fresh enough
    refine ⟨after, by simp [ListOp.step, ListOp.spec, run], spells, ?_, ?_⟩
    · exact List.nodup_cons.mpr ⟨fresh, once⟩
    · simp only [ListOp.spec, List.length_cons]
      omega
  | remove item =>
    obtain ⟨after, run, spells⟩ := spells.remove once legal (Nat.le_of_lt enough)
    refine ⟨after, by simp [ListOp.step, ListOp.spec, run], spells, once.erase item, ?_⟩
    have shorter := List.length_erase_le (a := item) (l := items)
    simp only [ListOp.spec]
    omega
  | removeFront =>
    cases items with
    | nil => exact absurd rfl legal
    | cons item items =>
      obtain ⟨after, run, spells⟩ := spells.removeFront
      refine ⟨after, by simp [ListOp.step, ListOp.spec, run], spells, ?_, ?_⟩
      · exact (List.nodup_cons.mp once).2
      · simp only [ListOp.spec, List.tail_cons]
        simp only [List.length_cons] at room
        omega

/-- What the fields, the queries and an iterator show of the items. -/
structure Shows (list : LinkedList α) (fuel : Nat) (items : List α) : Prop where
  /-- The links lead from `first` to `last` and no further. -/
  spelled : ∃ nodes, Segment list.heap list.first nodes none ∧ (nodes.map Prod.fst).Nodup ∧
    list.last = nodes.getLast?.map Prod.fst ∧ nodes.map Prod.snd = items
  ends : ∀ p, list.last = some p → ∃ x, list.heap p = some ⟨none, x⟩
  first_null : list.first = none ↔ list.numInList = 0
  last_null : list.last = none ↔ list.numInList = 0
  numInList : list.numInList = items.length
  isInList : ∀ item, list.isInList fuel item = some (decide (item ∈ items))
  front : list.front = items.head?
  iterated : ListIterator.items list fuel (ListIterator.new list) = some items
  sanityCheck : list.sanityCheck fuel = some ()

theorem Spells.shows (spells : list.Spells items) (enough : items.length ≤ fuel) :
    list.Shows fuel items := by
  obtain ⟨nodes, rep, rfl⟩ := spells
  rw [List.length_map] at enough
  have count := rep.count
  constructor
  · exact ⟨nodes, rep.chain.linked, rep.chain.distinct, rep.last, rfl⟩
  · intro p last
    rcases List.eq_nil_or_concat' nodes with rfl | ⟨left, ⟨a, x⟩, rfl⟩
    · cases rep.last.symm.trans last
    · rw [rep.last_concat] at last
      cases last
      exact ⟨x, rep.chain.cell⟩
  · rw [rep.first_eq]
    cases nodes with
    | nil => simp [count]
    | cons node rest =>
      simp only [List.length_cons] at count
      exact iff_of_false (by simp [start]) (by omega)
  · rw [rep.last]
    cases nodes with
    | nil => simp [count]
    | cons node rest =>
      simp only [List.length_cons] at count
      exact iff_of_false (by simp) (by omega)
  · rw [count, List.length_map]
  · intro item
    exact rep.isInList enough
  · cases nodes with
    | nil =>
      have null : list.first = none := rep.first_eq
      simp [LinkedList.front, deref, null]
    | cons node rest => exact rep.front
  · exact ListIterator.items_segment rep.chain.linked enough
  · exact rep.sanityCheck enough

/-- A run of calls on a new list: the elements spell the sequence that the same calls make,
and every query of the list answers for that sequence. -/
theorem linked_run_spells (ops : List (ListOp α)) {fuel : Nat} (enough : ops.length ≤ fuel)
    (legal : (ListOp.component fuel).Legal ops new []) :
    ∃ list, (ListOp.component fuel).run ops new =
        some (((ListOp.component fuel).specRun ops []).1, list) ∧
      list.Shows fuel ((ListOp.component fuel).specRun ops []).2 := by
  have start : (new : LinkedList α).Within fuel ops.length [] :=
    ⟨⟨[], new_represents, rfl⟩, List.nodup_nil, by simpa using enough⟩
  obtain ⟨list, run, spells, -, room⟩ := Component.refines listOp_simulates ops start legal
  exact ⟨list, run, spells.shows (by omega)⟩

/-- The address that the first `Remove` gives back is used again. -/
theorem linked_run_spells_reuse :
    ∃ list, (ListOp.component 5).run
        [.append 0 5, .append 1 6, .remove 6, .prepend 1 7, .removeFront] new =
        some ([none, none, none, none, some 7], list) ∧ list.Shows 5 [5] :=
  linked_run_spells [.append 0 5, .append 1 6, .remove 6, .prepend 1 7, .removeFront]
    (by decide)
    (.cons ⟨rfl, by decide⟩ rfl (.cons ⟨rfl, by decide⟩ rfl
      (.cons (show 6 ∈ [5, 6] by decide) rfl (.cons ⟨rfl, by decide⟩ rfl
        (.cons (show [7, 5] ≠ [] by decide) rfl trivial)))))

end LinkedList

end NachOS.Library
