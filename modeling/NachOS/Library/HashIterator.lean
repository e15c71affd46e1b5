import NachOS.Library.HashTable

/-!
# HashIterator<Key,T> (lib/hash.h:101-118, lib/hash.cc:249-259, 331-360)

An iterator over a hash table is the number of a bucket and an iterator over the list of that
bucket, which is NULL behind the last bucket. `Next` goes on in the list and, at its end, to
the next bucket that has any items.
-/
namespace NachOS.Library
open NachOS.Lib

variable {α : Type}

namespace HashTable

/-- The loop of `HashTable::FindNextFullBucket` over the buckets from number `bucket` on. -/
def findFullBucket : List (LinkedList α) → Nat → Nat
  | [], bucket => bucket
  | list :: rest, bucket => if list.isEmpty then findFullBucket rest (bucket + 1) else bucket

/-- `HashTable::FindNextFullBucket`. -/
def findNextFullBucket (table : HashTable α) (bucket : Nat) : Nat :=
  findFullBucket (table.buckets.drop bucket) bucket

end HashTable

/-- `bucketIter` is `none` for NULL; else it is on the elements of the list of `bucket`. -/
structure HashIterator where
  bucket : Nat
  bucketIter : Option ListIterator

namespace HashIterator

/-- The end of the constructor and of `Next`: the list of the bucket that was found. -/
def enter (table : HashTable α) (bucket : Nat) : Option HashIterator :=
  if bucket < table.numBuckets then do
    let list ← table.buckets[bucket]?
    some ⟨bucket, some (ListIterator.new list)⟩
  else some ⟨bucket, none⟩

/-- The constructor. -/
def new (table : HashTable α) : Option HashIterator := enter table (table.findNextFullBucket 0)

def isDone (iterator : HashIterator) (table : HashTable α) : Bool :=
  iterator.bucket = table.numBuckets

def item (iterator : HashIterator) (table : HashTable α) : Option α := do
  guard (iterator.isDone table = false)
  let bucketIter ← iterator.bucketIter
  let list ← table.buckets[iterator.bucket]?
  bucketIter.item list

/-- `HashIterator::Next`. -/
def next (iterator : HashIterator) (table : HashTable α) : Option HashIterator := do
  let bucketIter ← iterator.bucketIter
  let list ← table.buckets[iterator.bucket]?
  let bucketIter ← bucketIter.next list
  if bucketIter.isDone then enter table (table.findNextFullBucket (iterator.bucket + 1))
  else some { iterator with bucketIter := some bucketIter }

/-- `for (; !IsDone(); Next())` with the items that `Item()` gives. -/
def items (table : HashTable α) : Nat → HashIterator → Option (List α)
  | 0, iterator => if iterator.isDone table then some [] else none
  | rounds + 1, iterator =>
    if iterator.isDone table then some []
    else do
      let item ← iterator.item table
      let iterator ← iterator.next table
      let rest ← items table rounds iterator
      some (item :: rest)

/-- The iterator after some rounds of the loop. -/
def steps (table : HashTable α) : Nat → HashIterator → Option HashIterator
  | 0, iterator => some iterator
  | rounds + 1, iterator => (iterator.next table).bind (steps table rounds)

/-- What is ahead of an iterator: the rest of a list that has not ended, and the lists of the
buckets behind it. -/
inductive Ahead (table : HashTable α) : HashIterator → List α → Prop
  | done : Ahead table ⟨table.numBuckets, none⟩ []
  | within {bucket : Nat} {list : LinkedList α} {p : Option Nat} {nodes : List (Nat × α)}
      {later : List (List α)} (here : table.buckets[bucket]? = some list)
      (segment : Segment list.heap p nodes none) (nonempty : nodes ≠ [])
      (spells : List.Forall₂ LinkedList.Spells (table.buckets.drop (bucket + 1)) later) :
      Ahead table ⟨bucket, some ⟨p⟩⟩ (nodes.map Prod.snd ++ later.flatten)

variable {table : HashTable α} {iterator : HashIterator} {rest : List α} {thing : α}

/-- Entering the next full bucket leaves nothing out. -/
theorem enter_ahead {lists : List (LinkedList α)} {views : List (List α)} {bucket : Nat}
    (spells : List.Forall₂ LinkedList.Spells lists views)
    (suffix : table.buckets.drop bucket = lists) (inside : bucket ≤ table.numBuckets) :
    ∃ iterator, enter table (HashTable.findFullBucket lists bucket) = some iterator ∧
      Ahead table iterator views.flatten := by
  induction spells generalizing bucket with
  | nil =>
    have last : bucket = table.numBuckets :=
      Nat.le_antisymm inside (List.drop_eq_nil_iff.mp suffix)
    subst last
    refine ⟨⟨table.numBuckets, none⟩, ?_, .done⟩
    simp [HashTable.findFullBucket, enter]
  | @cons list view lists views spells later ih =>
    have here : table.buckets[bucket]? = some list := by
      rw [← List.head?_drop, suffix]
      rfl
    have suffix' : table.buckets.drop (bucket + 1) = lists := by
      rw [← List.tail_drop, suffix]
      rfl
    have bound : bucket < table.numBuckets := (List.getElem?_eq_some_iff.mp here).1
    by_cases empty : view = []
    · have skipped : list.isEmpty = true := spells.isEmpty_iff.mpr empty
      obtain ⟨iterator, entered, ahead⟩ := ih suffix' bound
      refine ⟨iterator, ?_, ?_⟩
      · rw [HashTable.findFullBucket, if_pos skipped]
        exact entered
      · rw [empty, List.flatten_cons, List.nil_append]
        exact ahead
    · have full : ¬ list.isEmpty = true := fun none => empty (spells.isEmpty_iff.mp none)
      obtain ⟨nodes, rep, rfl⟩ := spells
      refine ⟨⟨bucket, some (ListIterator.new list)⟩, ?_, ?_⟩
      · rw [HashTable.findFullBucket, if_neg full, enter, if_pos bound, here]
        rfl
      · apply Ahead.within here rep.chain.linked
        · intro none
          exact empty (congrArg (List.map Prod.snd) none)
        · rw [suffix']
          exact later

theorem new_ahead {views : List (List α)}
    (spells : List.Forall₂ LinkedList.Spells table.buckets views) :
    ∃ iterator, new table = some iterator ∧ Ahead table iterator views.flatten :=
  enter_ahead spells rfl (Nat.zero_le _)

theorem Ahead.isDone_nil (ahead : Ahead table iterator []) : iterator.isDone table = true := by
  generalize none : ([] : List α) = rest at ahead
  cases ahead with
  | done => simp [isDone]
  | within here segment nonempty spells =>
    have empty := (List.append_eq_nil_iff.mp none.symm).1
    exact absurd (List.map_eq_nil_iff.mp empty) nonempty

/-- One round of the loop: the item is there, and `Next` goes past it. -/
theorem Ahead.step (ahead : Ahead table iterator (thing :: rest)) :
    iterator.isDone table = false ∧ iterator.bucketIter.isSome = true ∧
      iterator.item table = some thing ∧
      ∃ after, iterator.next table = some after ∧ Ahead table after rest := by
  generalize all : thing :: rest = coming at ahead
  cases ahead with
  | done => cases all
  | @within bucket list p nodes later here segment nonempty spells =>
    have bound : bucket < table.numBuckets := (List.getElem?_eq_some_iff.mp here).1
    have going : isDone ⟨bucket, some ⟨p⟩⟩ table = false := decide_eq_false (Nat.ne_of_lt bound)
    cases nodes with
    | nil => exact absurd rfl nonempty
    | cons node nodes =>
      obtain ⟨a, x⟩ := node
      obtain ⟨rfl, next, cell, segment⟩ := segment
      cases all
      have stepped : ListIterator.next ⟨some a⟩ list = some ⟨next⟩ := by
        simp [ListIterator.next, LinkedList.deref, cell]
      refine ⟨going, rfl, ?_, ?_⟩
      · simp [item, going, here, ListIterator.item, ListIterator.isDone, LinkedList.deref, cell]
      · simp only [HashIterator.next, Option.bind_eq_bind, Option.bind_some, here, stepped]
        cases nodes with
        | nil =>
          have ended : next = none := segment
          have done : ListIterator.isDone ⟨none⟩ = true := rfl
          rw [ended, if_pos done]
          exact enter_ahead spells rfl bound
        | cons node nodes =>
          obtain ⟨rfl, _⟩ := id segment
          rw [if_neg (by simp [ListIterator.isDone])]
          exact ⟨_, rfl, .within here segment (List.cons_ne_nil _ _) spells⟩

/-- The loop ends, after one round for every item. -/
theorem Ahead.items (ahead : Ahead table iterator rest) {rounds : Nat}
    (enough : rest.length ≤ rounds) : HashIterator.items table rounds iterator = some rest := by
  induction rest generalizing iterator rounds with
  | nil =>
    have done := ahead.isDone_nil
    cases rounds <;> simp [HashIterator.items, done]
  | cons thing rest ih =>
    obtain ⟨going, -, here, after, next, ahead⟩ := ahead.step
    cases rounds with
    | zero => cases enough
    | succ rounds =>
      have later := ih ahead (Nat.le_of_succ_le_succ enough)
      simp [HashIterator.items, going, here, next, later]

/-- The iterator in round `k` stands at item number `k`. -/
theorem Ahead.steps (ahead : Ahead table iterator rest) {k : Nat} (inside : k ≤ rest.length) :
    ∃ after, HashIterator.steps table k iterator = some after ∧
      Ahead table after (rest.drop k) := by
  induction k generalizing iterator rest with
  | zero => exact ⟨iterator, rfl, ahead⟩
  | succ k ih =>
    cases rest with
    | nil => cases inside
    | cons thing rest =>
      obtain ⟨-, -, -, after, next, ahead⟩ := ahead.step
      obtain ⟨last, run, ahead⟩ := ih ahead (Nat.le_of_succ_le_succ inside)
      refine ⟨last, ?_, ahead⟩
      rw [HashIterator.steps, next]
      exact run

section Runs

variable {κ : Type} [DecidableEq κ] [DecidableEq α] {getKey : α → κ} {hash : κ → BitVec 32}
  {allocate : Heap α → Nat} {fuel : Nat}

/-- A run of calls on a new table, and an iterator over the table it leaves: in each of its
rounds there is a list iterator for `Item` to ask, and the loop ends after as many rounds as
there are items, with each of them once. -/
theorem hash_iterator_yields (allocates : HashTable.Allocates allocate) (ops : List (HashOp κ α))
    (enough : ops.length ≤ fuel)
    (legal : (HashOp.component getKey hash allocate fuel).Legal ops HashTable.new
      (fun _ => none)) :
    ∃ table answers map iterator items,
      (HashOp.component getKey hash allocate fuel).specRun ops (fun _ => none) = (answers, map) ∧
      (HashOp.component getKey hash allocate fuel).run ops HashTable.new =
        some (answers, table) ∧
      new table = some iterator ∧ items.length = table.numItems ∧
      (∀ k < items.length, ∃ here, iterator.steps table k = some here ∧
        here.isDone table = false ∧ here.bucketIter.isSome = true ∧
        here.item table = items[k]?) ∧
      (∃ last, iterator.steps table items.length = some last ∧ last.isDone table = true) ∧
      (∀ rounds, items.length ≤ rounds → iterator.items table rounds = some items) ∧
      items.Nodup ∧ ∀ item, item ∈ items ↔ map (getKey item) = some item := by
  obtain ⟨table, run, views, holds, maps, -⟩ := HashTable.run_within allocates ops enough legal
  obtain ⟨iterator, created, ahead⟩ := new_ahead holds.spells
  refine ⟨table, _, _, iterator, views.flatten, rfl, run, created, holds.counted.symm, ?_, ?_, ?_,
    List.Nodup.of_map getKey holds.distinct, ?_⟩
  · intro k inside
    obtain ⟨here, stepped, ahead⟩ := ahead.steps (Nat.le_of_lt inside)
    rw [List.drop_eq_getElem_cons inside] at ahead
    obtain ⟨going, present, item, -⟩ := ahead.step
    exact ⟨here, stepped, going, present, item.trans (List.getElem?_eq_getElem inside).symm⟩
  · obtain ⟨last, stepped, ahead⟩ := ahead.steps le_rfl
    rw [List.drop_length] at ahead
    exact ⟨last, stepped, ahead.isDone_nil⟩
  · intro rounds enough
    exact ahead.items enough
  · exact maps.mem_iff

end Runs

/-- Two items of one bucket, after a third one was removed. -/
theorem hash_iterator_yields_two :
    ∃ table iterator items, (HashOp.component (fun item : Nat => item % 10) (fun _ => 7#32)
        (fun heap => sInf {address | heap address = none}) 4).run
        [.insert 21, .insert 32, .insert 43, .remove 2] HashTable.new =
        some ([none, none, none, some 32], table) ∧
      new table = some iterator ∧ iterator.items table items.length = some items ∧
      items.Nodup ∧ ∀ item, item ∈ items ↔ item = 21 ∨ item = 43 := by
  have legal : (HashOp.component (fun item : Nat => item % 10) (fun _ => 7#32)
      (fun heap => sInf {address | heap address = none}) 4).Legal
      [.insert 21, .insert 32, .insert 43, .remove 2] HashTable.new (fun _ => none) :=
    ⟨rfl, fun _ _ _ => ⟨rfl, fun _ _ _ => ⟨rfl, fun _ _ _ => ⟨Option.some_ne_none 32, fun _ _ _ =>
      trivial⟩⟩⟩⟩
  obtain ⟨table, answers, map, iterator, items, spec, run, created, -, -, -, loop, once, members⟩ :=
    hash_iterator_yields (fun heap free => Nat.sInf_mem free) _ (by decide) legal
  have answered := congrArg Prod.fst spec
  have mapped : map = Function.update (Function.update (Function.update
      (Function.update (fun _ => none) 1 (some 21)) 2 (some 32)) 3 (some 43)) 2 none :=
    (congrArg Prod.snd spec).symm
  subst answered
  refine ⟨table, iterator, items, run, created, loop _ le_rfl, once, ?_⟩
  intro item
  rw [members item, mapped]
  simp only [Function.update_apply]
  split_ifs <;> simp <;> omega

end HashIterator

end NachOS.Library
