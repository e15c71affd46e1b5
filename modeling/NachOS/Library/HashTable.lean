import NachOS.Lib.Component
import NachOS.Library.LinkedList
import Mathlib.Data.List.Forall2
import Mathlib.Data.Set.Card
import Mathlib.Order.Lattice.Nat

/-!
# HashTable<Key,T> (lib/hash.cc, lib/hash.h:37-86)

An array of buckets, each a `List<T>` on its elements, chosen by the hash of the key modulo
the number of buckets. The array is as long as `numBuckets` says: `InitBuckets` sets the two
together. `new` gives the address of a list element from the memory of the list; as in the
lists, `fuel` is the number of rounds of a loop and `none` a call that does not return.

The hash is an `unsigned`, and so is its remainder. The counters do not overflow: a list
element takes eight bytes of a 32-bit address space, and a bucket array grows only to at
most four buckets for three items.
-/
namespace NachOS.Library
open NachOS.Lib

def InitialBuckets : Nat := 4

def ResizeRatio : Nat := 3

def IncreaseSizeBy : Nat := 4

structure HashTable (α : Type) where
  buckets : List (LinkedList α)
  numItems : Int

namespace HashTable

variable {κ α : Type}

/-- The length of the array. -/
def numBuckets (table : HashTable α) : Nat := table.buckets.length

/-- `HashTable::InitBuckets`. -/
def initBuckets (table : HashTable α) (sz : Nat) : HashTable α :=
  { table with buckets := List.replicate sz LinkedList.new }

/-- The constructor. -/
def new : HashTable α := initBuckets ⟨[], 0⟩ InitialBuckets

section Code

variable [DecidableEq κ] [DecidableEq α] (getKey : α → κ) (hash : κ → BitVec 32)
  (allocate : Heap α → Nat) (fuel : Nat)

/-- `HashTable::HashValue`. -/
def hashValue (table : HashTable α) (key : κ) : Option Nat := do
  let result := (hash key).toNat % table.numBuckets
  guard (0 ≤ result ∧ result < table.numBuckets)
  some result

/-- `HashTable::FindInBucket`: the item, or `none` for `FALSE`. -/
def findInBucket (table : HashTable α) (bucket : Nat) (key : κ) : Option (Option α) := do
  let list ← table.buckets[bucket]?
  ListIterator.loop list (fun item => some (if key = getKey item then some item else none)) fuel
    (ListIterator.new list)

/-- `HashTable::Find`. -/
def find (table : HashTable α) (key : κ) : Option (Option α) := do
  let bucket ← table.hashValue hash key
  table.findInBucket getKey fuel bucket key

/-- `HashTable::IsInTable`. -/
def isInTable (table : HashTable α) (key : κ) : Option Bool := do
  let found ← table.find getKey hash fuel key
  some found.isSome

/-- `buckets[HashValue(getKey(item))]->Append(item)`. -/
def put (table : HashTable α) (item : α) : Option (HashTable α) := do
  let bucket ← table.hashValue hash (getKey item)
  let list ← table.buckets[bucket]?
  let list ← list.append fuel (allocate list.heap) item
  some { table with buckets := table.buckets.set bucket list }

/-- `HashTable::SanityCheck` for the buckets from number `i` on: what it finds in them. -/
def checkBuckets (table : HashTable α) (i : Nat) : List (LinkedList α) → Option Int
  | [] => some 0
  | list :: rest => do
    list.sanityCheck fuel
    let _ ← ListIterator.loop list (fun item => (do
      let value ← table.hashValue hash (getKey item)
      guard (i = value)).map fun _ => (none : Option Unit)) fuel (ListIterator.new list)
    let numFound ← checkBuckets table (i + 1) rest
    some (list.numInList + numFound)

/-- `HashTable::SanityCheck`. -/
def sanityCheck (table : HashTable α) : Option Unit := do
  let numFound ← checkBuckets getKey hash fuel table 0 table.buckets
  guard (table.numItems = numFound)

/-- The `while` loop of `HashTable::ReHash` on one list of the old table. -/
def moveItems : Nat → LinkedList α → HashTable α → Option (HashTable α)
  | 0, list, table => if list.isEmpty then some table else none
  | rounds + 1, list, table =>
    if list.isEmpty then some table
    else do
      let (item, list) ← list.removeFront
      let table ← table.put getKey hash allocate fuel item
      moveItems rounds list table

/-- The `for` loop of `HashTable::ReHash`. -/
def moveBuckets : List (LinkedList α) → HashTable α → Option (HashTable α)
  | [], table => some table
  | list :: rest, table => do
    let table ← moveItems getKey hash allocate fuel fuel list table
    moveBuckets rest table

/-- `HashTable::ReHash`. -/
def reHash (table : HashTable α) : Option (HashTable α) := do
  let oldTable := table.buckets
  table.sanityCheck getKey hash fuel
  let table := table.initBuckets (table.numBuckets * IncreaseSizeBy)
  let table ← moveBuckets getKey hash allocate fuel oldTable table
  table.sanityCheck getKey hash fuel
  some table

/-- The test of `HashTable::Insert` whether to resize. -/
def resize (table : HashTable α) : Option (HashTable α) :=
  if table.numItems / table.numBuckets ≥ ResizeRatio then table.reHash getKey hash allocate fuel
  else some table

/-- `HashTable::Insert`. -/
def insert (table : HashTable α) (item : α) : Option (HashTable α) := do
  let key := getKey item
  guard ((← table.isInTable getKey hash fuel key) = false)
  let table ← table.resize getKey hash allocate fuel
  let table ← table.put getKey hash allocate fuel item
  let table := { table with numItems := table.numItems + 1 }
  guard ((← table.isInTable getKey hash fuel key) = true)
  some table

/-- `HashTable::Remove`. -/
def remove (table : HashTable α) (key : κ) : Option (α × HashTable α) := do
  let bucket ← table.hashValue hash key
  let found ← table.findInBucket getKey fuel bucket key
  let item ← found
  let list ← table.buckets[bucket]?
  let list ← list.remove fuel item
  let table := { buckets := table.buckets.set bucket list, numItems := table.numItems - 1 }
  guard ((← table.isInTable getKey hash fuel key) = false)
  some (item, table)

end Code

section Lists

variable {β γ : Type} {R : β → γ → Prop} {xs : List β} {ys : List γ} {i : Nat}

theorem forall₂_getElem? (all : List.Forall₂ R xs ys) (range : i < ys.length) :
    ∃ x y, xs[i]? = some x ∧ ys[i]? = some y ∧ R x y := by
  induction all generalizing i with
  | nil => simp at range
  | cons here _ ih =>
    cases i with
    | zero => exact ⟨_, _, rfl, rfl, here⟩
    | succ i => exact ih (Nat.lt_of_succ_lt_succ range)

theorem forall₂_set {x : β} {y : γ} (all : List.Forall₂ R xs ys) (related : R x y) :
    List.Forall₂ R (xs.set i x) (ys.set i y) := by
  induction all generalizing i with
  | nil => exact .nil
  | cons here later ih =>
    cases i with
    | zero => exact .cons related later
    | succ i => exact .cons here ih

/-- One list of several is replaced: the others contribute what they did. -/
theorem flatten_set {views : List (List β)} {view : List β} (here : views[i]? = some view) :
    ∃ others, views.flatten.Perm (view ++ others) ∧
      ∀ view', (views.set i view').flatten.Perm (view' ++ others) := by
  induction views generalizing i with
  | nil => simp at here
  | cons first rest ih =>
    cases i with
    | zero =>
      cases here
      exact ⟨rest.flatten, .refl _, fun _ => .refl _⟩
    | succ i =>
      obtain ⟨others, perm, replaced⟩ := ih here
      refine ⟨first ++ others, ?_, fun view' => ?_⟩
      · exact (perm.append_left first).trans (List.perm_append_comm_assoc _ _ _)
      · exact ((replaced view').append_left first).trans (List.perm_append_comm_assoc _ _ _)

end Lists

section Invariant

variable {getKey : α → κ} {hash : κ → BitVec 32} {allocate : Heap α → Nat} {fuel : Nat}
  {table : HashTable α} {views : List (List α)} {item : α} {key : κ}

/-- What the buckets hold: every item is where its key hashes to, and no key is there twice. -/
structure Arranged (getKey : α → κ) (hash : κ → BitVec 32) (table : HashTable α)
    (views : List (List α)) : Prop where
  spells : List.Forall₂ LinkedList.Spells table.buckets views
  nonempty : 0 < views.length
  placed : ∀ i view, views[i]? = some view → ∀ item ∈ view,
    (hash (getKey item)).toNat % views.length = i
  distinct : (views.flatten.map getKey).Nodup

/-- The items are those counted, too. -/
structure Holds (getKey : α → κ) (hash : κ → BitVec 32) (table : HashTable α)
    (views : List (List α)) : Prop extends Arranged getKey hash table views where
  counted : table.numItems = views.flatten.length

/-- `new` returns memory that is not in use. -/
def Allocates (allocate : Heap α → Nat) : Prop :=
  ∀ heap : Heap α, (∃ address, heap address = none) → heap (allocate heap) = none

namespace Arranged

theorem numBuckets_eq (arranged : Arranged getKey hash table views) :
    table.numBuckets = views.length :=
  arranged.spells.length_eq

theorem hashValue_eq (arranged : Arranged getKey hash table views) (key : κ) :
    table.hashValue hash key = some ((hash key).toNat % views.length) := by
  have range : (hash key).toNat % views.length < views.length := Nat.mod_lt _ arranged.nonempty
  unfold hashValue
  simp only [arranged.numBuckets_eq, Option.bind_eq_bind]
  rw [LinkedList.guard_holds ⟨Nat.zero_le _, range⟩]
  rfl

/-- The bucket of a key. -/
theorem bucket (arranged : Arranged getKey hash table views) (key : κ) :
    ∃ list view, table.buckets[(hash key).toNat % views.length]? = some list ∧
      views[(hash key).toNat % views.length]? = some view ∧ list.Spells view :=
  forall₂_getElem? arranged.spells (Nat.mod_lt _ arranged.nonempty)

theorem sublist {i : Nat} {view : List α} (here : views[i]? = some view) :
    view.Sublist views.flatten :=
  List.sublist_flatten_of_mem (List.mem_of_getElem? here)

/-- An item with the key is in the bucket of the key. -/
theorem mem_bucket (arranged : Arranged getKey hash table views) {view : List α}
    (here : views[(hash key).toNat % views.length]? = some view) (same : getKey item = key) :
    item ∈ view ↔ item ∈ views.flatten := by
  constructor
  · exact fun member => (sublist here).subset member
  · intro member
    obtain ⟨other, there, member⟩ := List.mem_flatten.mp member
    obtain ⟨j, found⟩ := List.mem_iff_getElem?.mp there
    have slot := arranged.placed j other found item member
    rw [same] at slot
    rw [← slot, here] at found
    cases found
    exact member

/-- Every bucket passes, and the items in it are counted. -/
theorem checkBuckets (arranged : Arranged getKey hash table views) {lists : List (LinkedList α)}
    {some_views : List (List α)} {i : Nat}
    (spells : List.Forall₂ LinkedList.Spells lists some_views)
    (placed : ∀ j view, some_views[j]? = some view → ∀ item ∈ view,
      (hash (getKey item)).toNat % views.length = i + j)
    (enough : some_views.flatten.length ≤ fuel) :
    HashTable.checkBuckets getKey hash fuel table i lists = some some_views.flatten.length := by
  induction spells generalizing i with
  | nil => rfl
  | @cons list view lists some_views here _ ih =>
    rw [List.flatten_cons, List.length_append] at enough
    have later := ih (i := i + 1) (fun j view found item member => by
      rw [placed (j + 1) view found item member]
      omega) (by omega)
    have passes : ∀ item ∈ view, (do
        let value ← table.hashValue hash (getKey item)
        guard (i = value) : Option Unit) = some () := by
      intro item member
      rw [arranged.hashValue_eq, placed 0 view rfl item member]
      exact LinkedList.guard_holds rfl
    unfold HashTable.checkBuckets
    rw [here.sanityCheck (by omega), here.loop _ (by omega), ListIterator.loopItems_check passes,
      later, here.numInList]
    simp

theorem sanityCheck (arranged : Arranged getKey hash table views)
    (counted : table.numItems = views.flatten.length) (enough : views.flatten.length ≤ fuel) :
    table.sanityCheck getKey hash fuel = some () := by
  have found := arranged.checkBuckets arranged.spells (i := 0)
    (fun j view found item member => by
      rw [arranged.placed j view found item member, Nat.zero_add]) enough
  unfold HashTable.sanityCheck
  rw [found]
  exact LinkedList.guard_holds counted

/-- One list of an arrangement is replaced by a list of items of the same bucket. -/
theorem replace (arranged : Arranged getKey hash table views) {i : Nat} {list : LinkedList α}
    {view : List α} (spells : list.Spells view) (range : i < views.length)
    (placed : ∀ item ∈ view, (hash (getKey item)).toNat % views.length = i)
    (distinct : ((views.set i view).flatten.map getKey).Nodup) (numItems : Int) :
    Arranged getKey hash ⟨table.buckets.set i list, numItems⟩ (views.set i view) where
  spells := forall₂_set arranged.spells spells
  nonempty := by
    rw [List.length_set]
    exact arranged.nonempty
  placed := by
    intro j other found item member
    rw [List.length_set]
    by_cases here : i = j
    · subst here
      rw [List.getElem?_set_self range] at found
      cases found
      exact placed item member
    · rw [List.getElem?_set_ne here] at found
      exact arranged.placed j other found item member
  distinct := distinct

section Lookup

variable [DecidableEq κ]

/-- With distinct keys there is one item at most to find. -/
theorem find_iff {items : List α} (distinct : (items.map getKey).Nodup) :
    items.find? (fun item => key = getKey item) = some item ↔ item ∈ items ∧ getKey item = key := by
  induction items with
  | nil => simp
  | cons first rest ih =>
    obtain ⟨fresh, distinct⟩ := List.nodup_cons.mp distinct
    rw [List.find?_cons]
    by_cases here : key = getKey first
    · simp only [here, decide_true, Option.some.injEq, List.mem_cons]
      constructor
      · rintro rfl
        exact ⟨.inl rfl, rfl⟩
      · rintro ⟨rfl | member, same⟩
        · rfl
        · exact absurd (List.mem_map.mpr ⟨item, member, same⟩) fresh
    · simp only [here, decide_false, ih distinct, List.mem_cons]
      constructor
      · rintro ⟨member, same⟩
        exact ⟨.inr member, same⟩
      · rintro ⟨rfl | member, same⟩
        · exact absurd same.symm here
        · exact ⟨member, same⟩

theorem findInBucket (arranged : Arranged getKey hash table views)
    (enough : views.flatten.length ≤ fuel) (key : κ) :
    table.findInBucket getKey fuel ((hash key).toNat % views.length) key =
      some (views.flatten.find? (fun item => key = getKey item)) := by
  obtain ⟨list, view, bucket, here, spells⟩ := arranged.bucket key
  have short := (sublist here).length_le
  have distinct : (view.map getKey).Nodup := ((sublist here).map getKey).nodup arranged.distinct
  unfold HashTable.findInBucket
  simp only [Option.bind_eq_bind, bucket, Option.bind_some]
  rw [spells.loop _ (by omega)]
  have loop := ListIterator.loopItems_find (fun item => decide (key = getKey item)) view
  simp only [decide_eq_true_eq] at loop
  rw [loop]
  congr 1
  apply Option.ext
  intro item
  rw [find_iff distinct, find_iff arranged.distinct]
  constructor
  · rintro ⟨member, same⟩
    exact ⟨(arranged.mem_bucket here same).mp member, same⟩
  · rintro ⟨member, same⟩
    exact ⟨(arranged.mem_bucket here same).mpr member, same⟩

theorem find (arranged : Arranged getKey hash table views) (enough : views.flatten.length ≤ fuel)
    (key : κ) :
    table.find getKey hash fuel key =
      some (views.flatten.find? (fun item => key = getKey item)) := by
  unfold HashTable.find
  rw [arranged.hashValue_eq]
  exact arranged.findInBucket enough key

theorem isInTable (arranged : Arranged getKey hash table views)
    (enough : views.flatten.length ≤ fuel) (key : κ) :
    table.isInTable getKey hash fuel key = some (decide (key ∈ views.flatten.map getKey)) := by
  unfold HashTable.isInTable
  rw [arranged.find enough]
  simp only [Option.bind_eq_bind, Option.bind_some, Option.some.injEq]
  rw [Bool.eq_iff_iff, List.find?_isSome, decide_eq_true_iff, List.mem_map]
  constructor
  · rintro ⟨item, member, same⟩
    exact ⟨item, member, (of_decide_eq_true same).symm⟩
  · rintro ⟨item, member, same⟩
    exact ⟨item, member, decide_eq_true same.symm⟩

end Lookup

section Moves

variable [DecidableEq α]

theorem put (allocates : Allocates allocate) (arranged : Arranged getKey hash table views)
    (fresh : getKey item ∉ views.flatten.map getKey) (enough : views.flatten.length < fuel) :
    ∃ buckets views', table.put getKey hash allocate fuel item = some { table with buckets } ∧
      Arranged getKey hash { table with buckets } views' ∧ views'.length = views.length ∧
      views'.flatten.Perm (item :: views.flatten) := by
  obtain ⟨list, view, bucket, here, spells⟩ := arranged.bucket (getKey item)
  have short := (sublist here).length_le
  have absent : item ∉ view := fun member =>
    fresh (List.mem_map_of_mem ((sublist here).subset member))
  have room : view.length < fuel := by omega
  obtain ⟨list', run, spells⟩ := spells.append (allocates _ spells.exists_free) absent room
  obtain ⟨others, perm, replaced⟩ := flatten_set here
  have more : (views.set ((hash (getKey item)).toNat % views.length) (view ++ [item])).flatten.Perm
      (item :: views.flatten) := by
    refine (replaced _).trans ?_
    refine .trans ?_ (perm.cons item).symm
    exact (List.perm_append_singleton item view).append_right others
  refine ⟨_, _, ?_, arranged.replace spells (Nat.mod_lt _ arranged.nonempty) ?_ ?_ _,
    List.length_set, more⟩
  · unfold HashTable.put
    rw [arranged.hashValue_eq]
    simp only [Option.bind_eq_bind, Option.bind_some, bucket, run]
  · intro other member
    rcases List.mem_append.mp member with member | member
    · exact arranged.placed _ view here other member
    · rw [List.mem_singleton.mp member]
  · rw [(more.map getKey).nodup_iff]
    exact List.nodup_cons.mpr ⟨fresh, arranged.distinct⟩

/-- The items of one list of the old table are moved, front first. -/
theorem moveItems (allocates : Allocates allocate) {list : LinkedList α} {items : List α}
    {rounds : Nat} (arranged : Arranged getKey hash table views) (spells : list.Spells items)
    (distinct : ((items ++ views.flatten).map getKey).Nodup)
    (enough : (items ++ views.flatten).length ≤ fuel) (more : items.length ≤ rounds) :
    ∃ buckets views', HashTable.moveItems getKey hash allocate fuel rounds list table =
        some { table with buckets } ∧
      Arranged getKey hash { table with buckets } views' ∧ views'.length = views.length ∧
      views'.flatten.Perm (items ++ views.flatten) := by
  induction items generalizing list table views rounds with
  | nil =>
    have empty : list.isEmpty = true := spells.isEmpty_iff.mpr rfl
    refine ⟨table.buckets, views, ?_, arranged, rfl, .refl _⟩
    cases rounds <;> simp [HashTable.moveItems, empty]
  | cons item rest ih =>
    have full : ¬ list.isEmpty = true := fun empty => by
      cases spells.isEmpty_iff.mp empty
    rw [List.cons_append, List.map_cons, List.nodup_cons] at distinct
    obtain ⟨fresh, distinct⟩ := distinct
    obtain ⟨list', front, spells⟩ := spells.removeFront
    rw [List.map_append, List.mem_append, not_or] at fresh
    simp only [List.cons_append, List.length_cons, List.length_append] at enough more
    cases rounds with
    | zero => omega
    | succ rounds =>
      have room : views.flatten.length < fuel := by omega
      obtain ⟨buckets, mid, put, arranged, size, perm⟩ := arranged.put allocates fresh.2 room
      have front_last : (rest ++ mid.flatten).Perm (item :: (rest ++ views.flatten)) :=
        (perm.append_left rest).trans List.perm_middle
      have distinct' : ((rest ++ mid.flatten).map getKey).Nodup := by
        rw [(front_last.map getKey).nodup_iff, List.map_cons, List.nodup_cons]
        refine ⟨?_, distinct⟩
        rw [List.map_append, List.mem_append, not_or]
        exact fresh
      have enough' : (rest ++ mid.flatten).length ≤ fuel := by
        rw [front_last.length_eq, List.length_cons, List.length_append]
        omega
      obtain ⟨buckets', views', run, arranged, size', perm'⟩ :=
        ih arranged spells distinct' enough' (Nat.le_of_succ_le_succ more)
      refine ⟨buckets', views', ?_, arranged, size'.trans size, perm'.trans front_last⟩
      simp only [HashTable.moveItems, Bool.not_eq_true, full, if_neg, Option.bind_eq_bind, front,
        Option.bind_some, put]
      exact run

/-- The lists of the old table are emptied one after the other. -/
theorem moveBuckets (allocates : Allocates allocate) {lists : List (LinkedList α)}
    {old : List (List α)} (spells : List.Forall₂ LinkedList.Spells lists old)
    (arranged : Arranged getKey hash table views)
    (distinct : ((old.flatten ++ views.flatten).map getKey).Nodup)
    (enough : (old.flatten ++ views.flatten).length ≤ fuel) :
    ∃ buckets views', HashTable.moveBuckets getKey hash allocate fuel lists table =
        some { table with buckets } ∧
      Arranged getKey hash { table with buckets } views' ∧ views'.length = views.length ∧
      views'.flatten.Perm (old.flatten ++ views.flatten) := by
  induction spells generalizing table views with
  | nil => exact ⟨table.buckets, views, rfl, arranged, rfl, .refl _⟩
  | @cons list view lists old here _ ih =>
    rw [List.flatten_cons] at distinct enough
    have swapped : (view ++ old.flatten ++ views.flatten).Perm
        (old.flatten ++ (view ++ views.flatten)) := by
      rw [List.append_assoc]
      exact List.perm_append_comm_assoc _ _ _
    have inner : (view ++ views.flatten).Sublist (old.flatten ++ (view ++ views.flatten)) :=
      List.sublist_append_right _ _
    have distinct := (swapped.map getKey).nodup_iff.mp distinct
    have enough := swapped.length_eq ▸ enough
    have short := inner.length_le
    have view_short := (List.sublist_append_left view views.flatten).length_le
    obtain ⟨buckets, mid, run, arranged, size, perm⟩ :=
      arranged.moveItems allocates here ((inner.map getKey).nodup distinct) (short.trans enough)
        (view_short.trans (short.trans enough))
    have moved := perm.append_left old.flatten
    obtain ⟨buckets', views', run', arranged, size', perm'⟩ :=
      ih arranged ((moved.map getKey).nodup_iff.mpr distinct) (moved.length_eq ▸ enough)
    refine ⟨buckets', views', ?_, arranged, size'.trans size, ?_⟩
    · simp only [HashTable.moveBuckets, Option.bind_eq_bind, run, Option.bind_some]
      exact run'
    · rw [List.flatten_cons]
      exact perm'.trans (moved.trans swapped.symm)

end Moves

end Arranged

theorem initBuckets_arranged {size : Nat} (some_bucket : 0 < size) :
    Arranged getKey hash (table.initBuckets size) (List.replicate size []) where
  spells := by
    unfold initBuckets
    induction size with
    | zero => exact .nil
    | succ size ih =>
      have empty : (LinkedList.new : LinkedList α).Spells [] :=
        ⟨[], LinkedList.new_represents, rfl⟩
      cases size with
      | zero => exact .cons empty .nil
      | succ size => exact .cons empty (ih (Nat.succ_pos _))
  nonempty := by
    rw [List.length_replicate]
    exact some_bucket
  placed := by
    intro i view found item member
    rw [List.eq_of_mem_replicate (List.mem_of_getElem? found)] at member
    cases member
  distinct := by simp

namespace Holds

variable [DecidableEq α]

/-- A resize keeps the items and their number. -/
theorem reHash (allocates : Allocates allocate) (holds : Holds getKey hash table views)
    (enough : views.flatten.length ≤ fuel) :
    ∃ table' views', table.reHash getKey hash allocate fuel = some table' ∧
      Holds getKey hash table' views' ∧ views'.flatten.Perm views.flatten ∧
      table'.numBuckets = table.numBuckets * IncreaseSizeBy := by
  have size : 0 < table.numBuckets * IncreaseSizeBy := by
    rw [holds.numBuckets_eq]
    exact Nat.mul_pos holds.nonempty (by decide)
  have start : Arranged getKey hash (table.initBuckets (table.numBuckets * IncreaseSizeBy))
      (List.replicate (table.numBuckets * IncreaseSizeBy) []) := initBuckets_arranged size
  have all : views.flatten ++
      (List.replicate (table.numBuckets * IncreaseSizeBy) ([] : List α)).flatten =
        views.flatten := by
    simp
  have distinct := all.symm ▸ holds.distinct
  have room := all.symm ▸ enough
  obtain ⟨buckets, views', run, arranged, length, perm⟩ :=
    start.moveBuckets allocates holds.spells distinct room
  rw [all] at perm
  have counted : table.numItems = views'.flatten.length := by
    rw [perm.length_eq]
    exact holds.counted
  have after := arranged.sanityCheck counted (perm.length_eq ▸ enough)
  refine ⟨_, views', ?_, ⟨arranged, counted⟩, perm, ?_⟩
  · unfold HashTable.reHash
    rw [holds.sanityCheck holds.counted enough]
    simp only [Option.bind_eq_bind, Option.bind_some, run]
    rw [after]
    rfl
  · rw [arranged.numBuckets_eq, length, List.length_replicate]

/-- The number of buckets grows to at most four for three items. -/
theorem resize (allocates : Allocates allocate) (holds : Holds getKey hash table views)
    (enough : views.flatten.length ≤ fuel) :
    ∃ table' views', table.resize getKey hash allocate fuel = some table' ∧
      Holds getKey hash table' views' ∧ views'.flatten.Perm views.flatten ∧
      (table'.numBuckets = table.numBuckets ∨
        (3 * table'.numBuckets : Int) ≤ 4 * table'.numItems) := by
  unfold HashTable.resize
  split
  next many =>
    obtain ⟨table', views', run, holds', perm, size⟩ := holds.reHash allocates enough
    have counted := holds'.counted
    rw [perm.length_eq, ← holds.counted] at counted
    refine ⟨table', views', run, holds', perm, .inr ?_⟩
    have some_bucket : (0 : Int) < table.numBuckets := by
      rw [holds.numBuckets_eq]
      exact_mod_cast holds.nonempty
    have three : (3 : Int) * table.numBuckets ≤ table.numItems :=
      (Int.le_ediv_iff_mul_le some_bucket).mp many
    rw [size, counted, IncreaseSizeBy]
    push_cast
    omega
  next => exact ⟨table, views, rfl, holds, .refl _, .inl rfl⟩

variable [DecidableEq κ]

/-- An item with a new key is put into its bucket, after a resize or without. -/
theorem insert (allocates : Allocates allocate) (holds : Holds getKey hash table views)
    (fresh : getKey item ∉ views.flatten.map getKey) (enough : views.flatten.length < fuel) :
    ∃ table' views', table.insert getKey hash allocate fuel item = some table' ∧
      Holds getKey hash table' views' ∧ views'.flatten.Perm (item :: views.flatten) := by
  have absent : table.isInTable getKey hash fuel (getKey item) = some false := by
    rw [holds.isInTable (Nat.le_of_lt enough), decide_eq_false fresh]
  obtain ⟨mid, mid_views, resized, mid_holds, mid_perm, -⟩ :=
    holds.resize allocates (Nat.le_of_lt enough)
  have fresh' : getKey item ∉ mid_views.flatten.map getKey := fun member =>
    fresh ((mid_perm.map getKey).mem_iff.mp member)
  have room : mid_views.flatten.length < fuel := mid_perm.length_eq ▸ enough
  obtain ⟨buckets, views', put, arranged, -, perm⟩ := mid_holds.put allocates fresh' room
  have counted : mid.numItems + 1 = views'.flatten.length := by
    rw [perm.length_eq, mid_holds.counted, List.length_cons]
    rfl
  have arranged' : Arranged getKey hash ⟨buckets, mid.numItems + 1⟩ views' :=
    ⟨arranged.spells, arranged.nonempty, arranged.placed, arranged.distinct⟩
  have member : getKey item ∈ views'.flatten.map getKey :=
    (perm.map getKey).mem_iff.mpr List.mem_cons_self
  have length : views'.flatten.length ≤ fuel := by
    rw [perm.length_eq]
    exact room
  have present : isInTable getKey hash fuel ⟨buckets, mid.numItems + 1⟩ (getKey item) =
      some true := by
    rw [arranged'.isInTable length, decide_eq_true member]
  refine ⟨⟨buckets, mid.numItems + 1⟩, views', ?_, ⟨arranged', counted⟩,
    perm.trans (mid_perm.cons item)⟩
  unfold HashTable.insert
  simp only [Option.bind_eq_bind, absent, Option.bind_some]
  rw [LinkedList.guard_holds trivial, Option.bind_some, resized]
  simp only [Option.bind_some, put, present]
  rw [LinkedList.guard_holds trivial]
  rfl

/-- The item with the key is taken out of its bucket. -/
theorem remove (holds : Holds getKey hash table views) (member : item ∈ views.flatten)
    (enough : views.flatten.length ≤ fuel) :
    ∃ table' views', table.remove getKey hash fuel (getKey item) = some (item, table') ∧
      Holds getKey hash table' views' ∧ views.flatten.Perm (item :: views'.flatten) := by
  obtain ⟨list, view, bucket, here, spells⟩ := holds.bucket (getKey item)
  have found : views.flatten.find? (fun other => getKey item = getKey other) = some item :=
    (Arranged.find_iff holds.distinct).mpr ⟨member, rfl⟩
  have inside : item ∈ view := (holds.mem_bucket here rfl).mpr member
  have short := (Arranged.sublist here).length_le
  have once : view.Nodup :=
    List.Nodup.of_map getKey (((Arranged.sublist here).map getKey).nodup holds.distinct)
  have room : view.length ≤ fuel := by omega
  obtain ⟨list', run, spells⟩ := spells.remove once inside room
  obtain ⟨others, perm, replaced⟩ := flatten_set here
  have fewer : views.flatten.Perm (item ::
      (views.set ((hash (getKey item)).toNat % views.length) (view.erase item)).flatten) := by
    refine perm.trans ?_
    refine ((List.perm_cons_erase inside).append_right others).trans ?_
    exact (replaced _).symm.cons item
  have keys := (fewer.map getKey).nodup_iff.mp holds.distinct
  rw [List.map_cons, List.nodup_cons] at keys
  have arranged := holds.replace spells (Nat.mod_lt _ holds.nonempty)
    (fun other there => holds.placed _ view here other (List.mem_of_mem_erase there)) keys.2
    (table.numItems - 1)
  have length := fewer.length_eq
  rw [List.length_cons] at length
  have counted := holds.counted
  have less : (views.set ((hash (getKey item)).toNat % views.length)
      (view.erase item)).flatten.length ≤ fuel := by omega
  have absent := arranged.isInTable less (getKey item)
  rw [decide_eq_false keys.1] at absent
  refine ⟨_, _, ?_, ⟨arranged, by simp only; omega⟩, fewer⟩
  unfold HashTable.remove
  rw [holds.hashValue_eq]
  simp only [Option.bind_eq_bind, Option.bind_some]
  rw [holds.findInBucket enough, found]
  simp only [Option.bind_some, bucket, run, absent]
  rw [LinkedList.guard_holds trivial]
  rfl

end Holds

end Invariant

end HashTable

inductive HashOp (κ α : Type) where
  | insert (item : α)
  | remove (key : κ)
  | find (key : κ)

namespace HashOp

variable {κ α : Type} [DecidableEq κ] [DecidableEq α] (getKey : α → κ) (hash : κ → BitVec 32)
  (allocate : Heap α → Nat) (fuel : Nat)

def step (op : HashOp κ α) (table : HashTable α) : Option (Option α × HashTable α) :=
  match op with
  | insert item => (table.insert getKey hash allocate fuel item).map fun after => (none, after)
  | remove key => (table.remove getKey hash fuel key).map fun result => (some result.1, result.2)
  | find key => (table.find getKey hash fuel key).map fun found => (found, table)

/-- The call on a map from keys to items. -/
def spec (op : HashOp κ α) (map : κ → Option α) : Option α × (κ → Option α) :=
  match op with
  | insert item => (none, Function.update map (getKey item) (some item))
  | remove key => (map key, Function.update map key none)
  | find key => (map key, map)

/-- Items are inserted under new keys, and keys are removed that are there. -/
def legal (op : HashOp κ α) (map : κ → Option α) : Prop :=
  match op with
  | insert item => map (getKey item) = none
  | remove key => map key ≠ none
  | find _ => True

/-- `HashTable<Key,T>` as a map. -/
def component : Component (HashOp κ α) (HashTable α) (κ → Option α) (Option α) :=
  ⟨step getKey hash allocate fuel, spec getKey, fun op _ map => legal getKey op map⟩

end HashOp

namespace HashTable

variable {κ α : Type} {getKey : α → κ} {hash : κ → BitVec 32} {allocate : Heap α → Nat}
  {fuel : Nat} {contents : List α} {map : κ → Option α} {item : α} {key : κ}

/-- The map finds exactly the items of the contents. -/
def Maps (getKey : α → κ) (map : κ → Option α) (contents : List α) : Prop :=
  ∀ key item, map key = some item ↔ item ∈ contents ∧ getKey item = key

namespace Maps

theorem mem_iff (maps : Maps getKey map contents) (item : α) :
    item ∈ contents ↔ map (getKey item) = some item := by
  rw [maps (getKey item) item]
  exact (and_iff_left rfl).symm

theorem key_mem (maps : Maps getKey map contents) :
    map key ≠ none ↔ key ∈ contents.map getKey := by
  rw [Option.ne_none_iff_exists', List.mem_map]
  constructor
  · rintro ⟨item, found⟩
    exact ⟨item, (maps key item).mp found⟩
  · rintro ⟨item, found⟩
    exact ⟨item, (maps key item).mpr found⟩

theorem find_eq [DecidableEq κ] (maps : Maps getKey map contents)
    (distinct : (contents.map getKey).Nodup) (key : κ) :
    contents.find? (fun item => key = getKey item) = map key := by
  apply Option.ext
  intro item
  rw [Arranged.find_iff distinct, maps key item]

/-- As many keys as items. -/
theorem ncard_eq (maps : Maps getKey map contents) (distinct : (contents.map getKey).Nodup) :
    Set.ncard {key | map key ≠ none} = contents.length := by
  classical
  have keys : {key | map key ≠ none} = ((contents.map getKey).toFinset : Set κ) := by
    ext key
    rw [Set.mem_ofPred_eq, maps.key_mem, Finset.mem_coe, List.mem_toFinset]
  rw [keys, Set.ncard_coe_finset, List.toFinset_card_of_nodup distinct, List.length_map]

variable [DecidableEq κ] {contents' : List α}

theorem insert (maps : Maps getKey map contents) (fresh : map (getKey item) = none)
    (perm : contents'.Perm (item :: contents)) :
    Maps getKey (Function.update map (getKey item) (some item)) contents' := by
  intro key other
  rw [perm.mem_iff, List.mem_cons]
  by_cases here : key = getKey item
  · subst here
    rw [Function.update_self, Option.some.injEq]
    constructor
    · rintro rfl
      exact ⟨.inl rfl, rfl⟩
    · rintro ⟨rfl | member, same⟩
      · rfl
      · have found := (maps (getKey item) other).mpr ⟨member, same⟩
        rw [fresh] at found
        cases found
  · rw [Function.update_of_ne here, maps key other]
    constructor
    · rintro ⟨member, same⟩
      exact ⟨.inr member, same⟩
    · rintro ⟨rfl | member, same⟩
      · exact absurd same.symm here
      · exact ⟨member, same⟩

theorem remove (maps : Maps getKey map contents) (distinct : (contents.map getKey).Nodup)
    (perm : contents.Perm (item :: contents')) :
    Maps getKey (Function.update map (getKey item) none) contents' := by
  have keys := (perm.map getKey).nodup_iff.mp distinct
  rw [List.map_cons, List.nodup_cons] at keys
  intro key other
  by_cases here : key = getKey item
  · subst here
    rw [Function.update_self]
    constructor
    · intro none
      cases none
    · rintro ⟨member, same⟩
      exact absurd (List.mem_map.mpr ⟨other, member, same⟩) keys.1
  · rw [Function.update_of_ne here, maps key other, perm.mem_iff, List.mem_cons]
    constructor
    · rintro ⟨rfl | member, same⟩
      · exact absurd same.symm here
      · exact ⟨member, same⟩
    · rintro ⟨member, same⟩
      exact ⟨.inr member, same⟩

end Maps

variable [DecidableEq κ] [DecidableEq α]

/-- A table that stands for the map, with room in the loops for `n` more items. -/
def Within (getKey : α → κ) (hash : κ → BitVec 32) (fuel n : Nat) (table : HashTable α)
    (map : κ → Option α) : Prop :=
  ∃ views, Holds getKey hash table views ∧ Maps getKey map views.flatten ∧
    views.flatten.length + n ≤ fuel

theorem hashOp_simulates (allocates : Allocates allocate) (n : Nat) (op : HashOp κ α)
    (table : HashTable α) (map : κ → Option α) (within : Within getKey hash fuel (n + 1) table map)
    (legal : op.legal getKey map) :
    ∃ after, op.step getKey hash allocate fuel table = some ((op.spec getKey map).1, after) ∧
      Within getKey hash fuel n after (op.spec getKey map).2 := by
  obtain ⟨views, holds, maps, room⟩ := within
  cases op with
  | insert item =>
    have fresh : getKey item ∉ views.flatten.map getKey := fun member =>
      maps.key_mem.mpr member legal
    have enough : views.flatten.length < fuel := by omega
    obtain ⟨after, views', run, holds', perm⟩ := holds.insert allocates fresh enough
    refine ⟨after, by simp [HashOp.step, HashOp.spec, run], views', holds', ?_, ?_⟩
    · exact maps.insert legal perm
    · rw [perm.length_eq, List.length_cons]
      omega
  | remove key =>
    obtain ⟨item, found⟩ := Option.ne_none_iff_exists'.mp legal
    obtain ⟨member, rfl⟩ := (maps key item).mp found
    have enough : views.flatten.length ≤ fuel := by omega
    obtain ⟨after, views', run, holds', perm⟩ := holds.remove member enough
    refine ⟨after, by simp [HashOp.step, HashOp.spec, run, found], views', holds', ?_, ?_⟩
    · exact maps.remove holds.distinct perm
    · have length := perm.length_eq
      rw [List.length_cons] at length
      omega
  | find key =>
    have enough : views.flatten.length ≤ fuel := by omega
    have run := holds.find enough key
    rw [maps.find_eq holds.distinct] at run
    exact ⟨table, by simp [HashOp.step, HashOp.spec, run], views, holds, maps, by omega⟩

/-- Any run of calls on a new table. -/
theorem run_within (allocates : Allocates allocate) (ops : List (HashOp κ α))
    (enough : ops.length ≤ fuel)
    (legal : (HashOp.component getKey hash allocate fuel).Legal ops new (fun _ => none)) :
    ∃ table, (HashOp.component getKey hash allocate fuel).run ops new =
        some (((HashOp.component getKey hash allocate fuel).specRun ops (fun _ => none)).1, table) ∧
      Within getKey hash fuel 0 table
        ((HashOp.component getKey hash allocate fuel).specRun ops (fun _ => none)).2 := by
  have start : Within getKey hash fuel ops.length (new : HashTable α) (fun _ => none) := by
    have empty : (List.replicate InitialBuckets ([] : List α)).flatten = [] := by simp
    refine ⟨List.replicate InitialBuckets [], ⟨initBuckets_arranged (by decide), ?_⟩, ?_, ?_⟩
    · rw [empty]
      rfl
    · intro key item
      rw [empty]
      simp
    · rw [empty]
      simpa using enough
  exact Component.refines (hashOp_simulates allocates) ops start legal

/-- A run of calls on a new table: the calls answer as the map does, whatever is looked up
afterwards is found as in the map, the items are counted, the checks of the source pass, and
the buckets hold the items of the map, once each and where their keys hash to. -/
theorem hash_run_maps (allocates : Allocates allocate) (ops : List (HashOp κ α))
    (enough : ops.length ≤ fuel)
    (legal : (HashOp.component getKey hash allocate fuel).Legal ops new (fun _ => none)) :
    ∃ table answers map,
      (HashOp.component getKey hash allocate fuel).specRun ops (fun _ => none) = (answers, map) ∧
      (HashOp.component getKey hash allocate fuel).run ops new = some (answers, table) ∧
      (∀ key, table.find getKey hash fuel key = some (map key)) ∧
      table.numItems = Set.ncard {key | map key ≠ none} ∧
      table.sanityCheck getKey hash fuel = some () ∧
      ∃ views, List.Forall₂ LinkedList.Spells table.buckets views ∧ views.flatten.Nodup ∧
        (∀ item, item ∈ views.flatten ↔ map (getKey item) = some item) ∧
        ∀ i view, views[i]? = some view → ∀ item ∈ view,
          (hash (getKey item)).toNat % table.numBuckets = i := by
  obtain ⟨table, run, views, holds, maps, room⟩ := run_within allocates ops enough legal
  refine ⟨table, _, _, rfl, run, ?_, ?_, holds.sanityCheck holds.counted room, views, holds.spells,
    List.Nodup.of_map getKey holds.distinct, ?_, ?_⟩
  · intro key
    rw [holds.find room, maps.find_eq holds.distinct]
  · rw [holds.counted, maps.ncard_eq holds.distinct]
  · exact maps.mem_iff
  · rw [holds.numBuckets_eq]
    exact holds.placed

/-- Three items whose keys hash alike, in memory that is handed out from the low end. -/
theorem hash_run_maps_colliding :
    ∃ table, (HashOp.component (fun item : Nat => item % 10) (fun _ => 7#32)
        (fun heap => sInf {address | heap address = none}) 5).run
        [.insert 21, .insert 32, .insert 43, .remove 2, .find 3] new =
        some ([none, none, none, some 32, some 43], table) ∧
      table.find (fun item => item % 10) (fun _ => 7#32) 5 1 = some (some 21) ∧
      table.sanityCheck (fun item => item % 10) (fun _ => 7#32) 5 = some () := by
  have legal : (HashOp.component (fun item : Nat => item % 10) (fun _ => 7#32)
      (fun heap => sInf {address | heap address = none}) 5).Legal
      [.insert 21, .insert 32, .insert 43, .remove 2, .find 3] new (fun _ => none) :=
    ⟨rfl, fun _ _ _ => ⟨rfl, fun _ _ _ => ⟨rfl, fun _ _ _ => ⟨Option.some_ne_none 32, fun _ _ _ =>
      ⟨trivial, fun _ _ _ => trivial⟩⟩⟩⟩⟩
  obtain ⟨table, answers, map, spec, run, find, -, sane, -⟩ :=
    hash_run_maps (fun heap free => Nat.sInf_mem free) _ (by decide) legal
  have answered := congrArg Prod.fst spec
  have mapped := congrFun (congrArg Prod.snd spec) 1
  subst answered
  exact ⟨table, run, (find 1).trans (congrArg some mapped.symm), sane⟩

end HashTable

end NachOS.Library
