import NachOS.Threads.Condition

/-!
# Synchronized lists (threads/synchlist.cc:51-81)

`SynchList<T>` is a `List<T>` with a lock and the condition variable `listEmpty`.
`Append` puts an item on the list and signals under the lock; `RemoveFront`
waits under the lock until the list is not empty and takes the front item.
The lock and the condition variable are the machine of the condition module, so
all of its switch points are switch points here.

`Apply`, which calls a function on the items under the lock, is not modelled.
`appended` and `removed` record the items in the order in which they entered and
left the list.
-/
namespace NachOS.Threads
open NachOS.Lib NachOS.Library

/-- Where a thread stands inside `Append` or `RemoveFront`. -/
inductive SynchPc (Item : Type*) where
  | idle
  /-- In or after `lock->Acquire()` of `Append`, before `list->Append(item)`. -/
  | appendPut (item : Item)
  /-- Before `listEmpty->Signal(lock)`. -/
  | appendSignal
  /-- In or after `Signal`, before `lock->Release()`. -/
  | appendRelease
  /-- In or after `lock->Acquire()` or `listEmpty->Wait(lock)` of `RemoveFront`,
  before the test of the loop. -/
  | removeTest
  /-- The list was not empty, before `list->RemoveFront()`. -/
  | removeTake
  /-- Before `lock->Release()`, with the item to return. -/
  | removeRelease (item : Item)
  deriving DecidableEq

/-- The item that a thread is about to put on the list. -/
def SynchPc.pending {Item : Type*} : SynchPc Item → Option Item
  | appendPut item => some item
  | idle | appendSignal | appendRelease | removeTest | removeTake | removeRelease _ => none

/-- Outside of `RemoveFront`. -/
def SynchPc.appends {Item : Type*} : SynchPc Item → Bool
  | idle | appendPut _ | appendSignal | appendRelease => true
  | removeTest | removeTake | removeRelease _ => false

/-- Outside of `Append`. -/
def SynchPc.removes {Item : Type*} : SynchPc Item → Bool
  | idle | removeTest | removeTake | removeRelease _ => true
  | appendPut _ | appendSignal | appendRelease => false

structure SynchState (Thread Item : Type*) where
  /-- The condition variable and the lock it is used with. -/
  listEmpty : CondState Thread
  list : List Item
  pc : Thread → SynchPc Item
  appended : List Item
  removed : List Item

inductive SynchEvent (Thread Item : Type*) where
  | append (t : Thread) (item : Item)
  | removeFront (t : Thread)
  | step (t : Thread)

section Machine

variable {Thread Item : Type*} [DecidableEq Thread] [DecidableEq Item]

namespace SynchState

def initial : SynchState Thread Item where
  listEmpty := .initial
  list := []
  pc := fun _ => .idle
  appended := []
  removed := []

def called (s : SynchState Thread Item) (t : Thread) (pc : SynchPc Item)
    (listEmpty : CondState Thread) : SynchState Thread Item :=
  { s with listEmpty, pc := Function.update s.pc t pc }

/-- A step in the code of the lock or of the condition, after which `t` is at `pc`. -/
def callCond (s : SynchState Thread Item) (t : Thread) (e : CondEvent Thread)
    (pc : SynchPc Item) : Option (SynchState Thread Item) :=
  (CondState.next e s.listEmpty).map (s.called t pc)

def put (s : SynchState Thread Item) (t : Thread) (item : Item) (list : List Item) :
    SynchState Thread Item :=
  { s with
    list
    pc := Function.update s.pc t .appendSignal
    appended := s.appended ++ [item] }

def take (s : SynchState Thread Item) (t : Thread) (item : Item) (list : List Item) :
    SynchState Thread Item :=
  { s with
    list
    pc := Function.update s.pc t (.removeRelease item)
    removed := s.removed ++ [item] }

/-- The next statement of `Append` or `RemoveFront`, for a thread that is not
inside a call on the lock or the condition. -/
def body (s : SynchState Thread Item) (t : Thread) : Option (SynchState Thread Item) :=
  match s.pc t with
  | .idle => none
  | .appendPut item => (append s.list item).map (s.put t item)
  | .appendSignal => s.callCond t (.signal t) .appendRelease
  | .appendRelease => s.callCond t (.release t) .idle
  | .removeTest =>
    if s.list = [] then s.callCond t (.wait t) .removeTest
    else some { s with pc := Function.update s.pc t .removeTake }
  | .removeTake => (removeFront s.list).map fun (item, list) => s.take t item list
  | .removeRelease _ => s.callCond t (.release t) .idle

def next : SynchEvent Thread Item → SynchState Thread Item → Option (SynchState Thread Item)
  | .append t item, s =>
    if s.pc t = .idle ∧ s.listEmpty.AtRest t then s.callCond t (.acquire t) (.appendPut item)
    else none
  | .removeFront t, s =>
    if s.pc t = .idle ∧ s.listEmpty.AtRest t then s.callCond t (.acquire t) .removeTest
    else none
  | .step t, s =>
    if s.listEmpty.AtRest t then s.body t else s.callCond t (.step t) (s.pc t)

end SynchState

/-- All interleavings of `Append` and `RemoveFront` on one list. -/
def synchMachine (Thread Item : Type*) [DecidableEq Thread] [DecidableEq Item] :
    Machine (SynchState Thread Item) (SynchEvent Thread Item) where
  init s := s = .initial
  next := SynchState.next

namespace SynchState

variable {s s' : SynchState Thread Item} {t : Thread}

/-- The calls on the lock and the condition: from where, and where they lead. -/
inductive Turn (s : SynchState Thread Item) (t : Thread) :
    CondEvent Thread → SynchPc Item → Prop
  | append (item : Item) (pc : s.pc t = .idle) (rest : s.listEmpty.AtRest t) :
      Turn s t (.acquire t) (.appendPut item)
  | removeFront (pc : s.pc t = .idle) (rest : s.listEmpty.AtRest t) :
      Turn s t (.acquire t) .removeTest
  | inner (busy : ¬ s.listEmpty.AtRest t) : Turn s t (.step t) (s.pc t)
  | signal (pc : s.pc t = .appendSignal) (rest : s.listEmpty.AtRest t) :
      Turn s t (.signal t) .appendRelease
  | release (pc : s.pc t = .appendRelease ∨ ∃ item, s.pc t = .removeRelease item)
      (rest : s.listEmpty.AtRest t) : Turn s t (.release t) .idle
  | wait (pc : s.pc t = .removeTest) (rest : s.listEmpty.AtRest t) (empty : s.list = []) :
      Turn s t (.wait t) .removeTest

/-- Everything one event can do. -/
inductive Effect (s : SynchState Thread Item) : SynchState Thread Item → Prop
  | call (t : Thread) (e : CondEvent Thread) (after : CondState Thread) (pc : SynchPc Item)
      (turn : s.Turn t e pc) (cond : CondState.next e s.listEmpty = some after) :
      Effect s (s.called t pc after)
  | put (t : Thread) (item : Item) (pc : s.pc t = .appendPut item)
      (rest : s.listEmpty.AtRest t) (fresh : item ∉ s.list) :
      Effect s (s.put t item (s.list ++ [item]))
  | test (t : Thread) (pc : s.pc t = .removeTest) (rest : s.listEmpty.AtRest t)
      (stocked : s.list ≠ []) :
      Effect s { s with pc := Function.update s.pc t .removeTake }
  | take (t : Thread) (item : Item) (list : List Item) (pc : s.pc t = .removeTake)
      (rest : s.listEmpty.AtRest t) (front : s.list = item :: list) :
      Effect s (s.take t item list)

omit [DecidableEq Item] in
theorem callCond_effect {e : CondEvent Thread} {pc : SynchPc Item} (turn : s.Turn t e pc)
    (h : s.callCond t e pc = some s') : s.Effect s' := by
  obtain ⟨after, hcond, rfl⟩ := Option.map_eq_some_iff.mp h
  exact .call t e after pc turn hcond

theorem body_effect (rest : s.listEmpty.AtRest t) (h : s.body t = some s') : s.Effect s' := by
  unfold body at h
  split at h
  · cases h
  next item hpc =>
    obtain ⟨list, happend, rfl⟩ := Option.map_eq_some_iff.mp h
    obtain ⟨fresh, rfl⟩ := append_eq_some.mp happend
    exact .put t item hpc rest fresh
  next hpc => exact callCond_effect (.signal hpc rest) h
  next hpc => exact callCond_effect (.release (.inl hpc) rest) h
  next hpc =>
    split at h
    next empty => exact callCond_effect (.wait hpc rest empty) h
    next stocked =>
      cases h
      exact .test t hpc rest stocked
  next hpc =>
    cases hl : s.list with
    | nil => simp [hl, removeFront] at h
    | cons item list =>
      simp only [hl, removeFront, Option.map_some, Option.some.injEq] at h
      subst h
      exact .take t item list hpc rest hl
  next item hpc => exact callCond_effect (.release (.inr ⟨item, hpc⟩) rest) h

theorem next_effect {e : SynchEvent Thread Item} (h : next e s = some s') : s.Effect s' := by
  cases e with
  | append t item =>
    simp only [next] at h
    split at h
    next guard => exact callCond_effect (.append item guard.1 guard.2) h
    · cases h
  | removeFront t =>
    simp only [next] at h
    split at h
    next guard => exact callCond_effect (.removeFront guard.1 guard.2) h
    · cases h
  | step t =>
    simp only [next] at h
    split at h
    next rest => exact body_effect rest h
    next busy => exact callCond_effect (.inner busy) h

/-- The steps of a thread inside a call that leave the list alone. -/
inductive Move : SynchPc Item → SynchPc Item → Prop
  | stay (pc : SynchPc Item) : Move pc pc
  | signal : Move .appendSignal .appendRelease
  | appended : Move .appendRelease .idle
  | test : Move .removeTest .removeTake
  | removed (item : Item) : Move (.removeRelease item) .idle

omit [DecidableEq Item] in
theorem Move.pending {a a' : SynchPc Item} (h : Move a a') : a'.pending = a.pending := by
  cases h <;> rfl

omit [DecidableEq Item] in
/-- A thread in `RemoveFront` that has no item yet. -/
theorem Move.beforeTake {a a' : SynchPc Item} (h : Move a a')
    (before : a = .removeTest ∨ a = .removeTake) : a' = .removeTest ∨ a' = .removeTake := by
  cases h with
  | stay => exact before
  | test => exact .inr rfl
  | signal | appended | removed => simp at before

omit [DecidableEq Item] in
/-- A thread in `RemoveFront` that has its item. -/
theorem Move.afterTake {a a' : SynchPc Item} {item : Item} (h : Move a a')
    (before : a = .removeRelease item ∨ a = .idle) : a' = .removeRelease item ∨ a' = .idle := by
  cases h with
  | stay => exact before
  | removed => exact .inr rfl
  | signal | appended | test => simp at before

/-- The other threads are where they were. -/
def SameFor (t : Thread) (s s' : SynchState Thread Item) : Prop :=
  ∀ u, u ≠ t → s'.pc u = s.pc u ∧ (s'.listEmpty.AtRest u ↔ s.listEmpty.AtRest u)

/-- What a step of `t` inside a call does to its place and to the records. -/
inductive Progress (s : SynchState Thread Item) (t : Thread) (s' : SynchState Thread Item) : Prop
  | move (pc : Move (s.pc t) (s'.pc t)) (appended : s'.appended = s.appended)
      (removed : s'.removed = s.removed)
  | put (item : Item) (before : s.pc t = .appendPut item) (after : s'.pc t = .appendSignal)
      (appended : s'.appended = s.appended ++ [item]) (removed : s'.removed = s.removed)
  | take (item : Item) (before : s.pc t = .removeTake) (after : s'.pc t = .removeRelease item)
      (appended : s'.appended = s.appended) (removed : s'.removed = s.removed ++ [item])

omit [DecidableEq Item] in
theorem callCond_others {e : CondEvent Thread} {pc : SynchPc Item} (own : e.thread = t)
    (h : s.callCond t e pc = some s') : SameFor t s s' := by
  obtain ⟨after, cond, rfl⟩ := Option.map_eq_some_iff.mp h
  intro u hu
  obtain ⟨condPc, lockPc, _⟩ := (CondState.next_effect cond).others (u := u) (by rw [own]; exact hu)
  exact ⟨Function.update_of_ne hu _ _, by simp [called, CondState.AtRest, condPc, lockPc]⟩

omit [DecidableEq Item] in
theorem callCond_progress {e : CondEvent Thread} {pc : SynchPc Item} (own : e.thread = t)
    (move : Move (s.pc t) pc) (h : s.callCond t e pc = some s') :
    Progress s t s' ∧ SameFor t s s' := by
  refine ⟨?_, callCond_others own h⟩
  obtain ⟨after, _, rfl⟩ := Option.map_eq_some_iff.mp h
  refine .move ?_ rfl rfl
  simpa [called] using move

theorem step_progress (h : next (.step t) s = some s') : Progress s t s' ∧ SameFor t s s' := by
  simp only [next] at h
  split at h
  · unfold body at h
    split at h
    · cases h
    next item pc =>
      obtain ⟨list, _, rfl⟩ := Option.map_eq_some_iff.mp h
      refine ⟨.put item pc ?_ rfl rfl, fun u hu => ⟨Function.update_of_ne hu _ _, .rfl⟩⟩
      simp [put]
    next pc => exact callCond_progress rfl (pc ▸ .signal) h
    next pc => exact callCond_progress rfl (pc ▸ .appended) h
    next pc =>
      split at h
      · exact callCond_progress rfl (pc ▸ .stay _) h
      · cases h
        refine ⟨.move ?_ rfl rfl, fun u hu => ⟨Function.update_of_ne hu _ _, .rfl⟩⟩
        simpa [pc] using Move.test
    next pc =>
      obtain ⟨⟨item, list⟩, _, rfl⟩ := Option.map_eq_some_iff.mp h
      refine ⟨.take item pc ?_ rfl rfl, fun u hu => ⟨Function.update_of_ne hu _ _, .rfl⟩⟩
      simp [take]
    next item pc => exact callCond_progress rfl (pc ▸ .removed item) h
  · exact callCond_progress rfl (.stay _) h

omit [DecidableEq Thread] [DecidableEq Item] in
theorem Progress.appends (h : Progress s t s') (before : (s.pc t).appends = true) :
    (s'.pc t).appends = true := by
  cases h with
  | move pc _ _ =>
    generalize s.pc t = a at pc before
    generalize s'.pc t = a' at pc ⊢
    cases pc with
    | stay => exact before
    | signal | appended => rfl
    | test | removed => cases before
  | put item _ after _ _ => simp [after, SynchPc.appends]
  | take item pc _ _ _ => simp [pc, SynchPc.appends] at before

omit [DecidableEq Thread] [DecidableEq Item] in
theorem Progress.removes (h : Progress s t s') (before : (s.pc t).removes = true) :
    (s'.pc t).removes = true := by
  cases h with
  | move pc _ _ =>
    generalize s.pc t = a at pc before
    generalize s'.pc t = a' at pc ⊢
    cases pc with
    | stay => exact before
    | test | removed => rfl
    | signal | appended => cases before
  | put item pc _ _ _ => simp [pc, SynchPc.removes] at before
  | take item _ after _ _ => simp [after, SynchPc.removes]

omit [DecidableEq Thread] [DecidableEq Item] in
/-- Only `RemoveFront` takes items off the list. -/
theorem Progress.removed_eq (h : Progress s t s') (before : (s.pc t).appends = true) :
    s'.removed = s.removed := by
  cases h with
  | move _ _ removed | put _ _ _ _ removed => exact removed
  | take item pc _ _ _ => simp [pc, SynchPc.appends] at before

omit [DecidableEq Thread] [DecidableEq Item] in
/-- Only `Append` puts items on the list. -/
theorem Progress.appended_eq (h : Progress s t s') (before : (s.pc t).removes = true) :
    s'.appended = s.appended := by
  cases h with
  | move _ appended _ | take _ _ _ appended _ => exact appended
  | put item pc _ _ _ => simp [pc, SynchPc.removes] at before

/-- A thread enters `Append` or `RemoveFront`. -/
structure Enters (s : SynchState Thread Item) (t : Thread) (pc : SynchPc Item)
    (s' : SynchState Thread Item) : Prop where
  before : s.pc t = .idle
  after : s'.pc = Function.update s.pc t pc
  appended : s'.appended = s.appended
  removed : s'.removed = s.removed
  others : SameFor t s s'

theorem append_enters {item : Item} (h : next (.append t item) s = some s') :
    Enters s t (.appendPut item) s' := by
  obtain ⟨guard, h⟩ := Option.ite_none_right_eq_some.mp h
  have others := callCond_others rfl h
  obtain ⟨after, _, rfl⟩ := Option.map_eq_some_iff.mp h
  exact ⟨guard.1, rfl, rfl, rfl, others⟩

theorem removeFront_enters (h : next (.removeFront t) s = some s') :
    Enters s t .removeTest s' := by
  obtain ⟨guard, h⟩ := Option.ite_none_right_eq_some.mp h
  have others := callCond_others rfl h
  obtain ⟨after, _, rfl⟩ := Option.map_eq_some_iff.mp h
  exact ⟨guard.1, rfl, rfl, rfl, others⟩

end SynchState

/-- The lock and the condition of a synchronized list are run as such. -/
def synchCond (Thread Item : Type*) [DecidableEq Thread] [DecidableEq Item] :
    Machine.Projection (synchMachine Thread Item) (condMachine Thread) where
  abs := SynchState.listEmpty
  init := by
    rintro s rfl
    rfl
  step := by
    intro e s s' h
    cases SynchState.next_effect h with
    | call t e after pc _ cond => exact .inr ⟨e, cond⟩
    | put | test | take => exact .inl rfl

/-- In `lock->Acquire()`, or after it and before `lock->Release()`. -/
def LockPc.Entering (lock : LockPc) (inside : Bool) : Prop :=
  (lock = .acquiring ∨ lock = .pastP) ∧ inside = false ∨ lock = .idle ∧ inside = true

/-- What a place in the list's code says about the thread's place in the code of
the condition and of the lock. -/
def SynchPc.At : SynchPc Item → CondPc → LockPc → Bool → Prop
  | idle, cond, lock, inside =>
    cond = .idle ∧ (lock = .idle ∨ lock = .releasing) ∧ inside = false
  | appendPut _, cond, lock, inside => cond = .idle ∧ lock.Entering inside
  | appendSignal, cond, lock, inside | removeTake, cond, lock, inside
  | removeRelease _, cond, lock, inside => cond = .idle ∧ lock = .idle ∧ inside = true
  | appendRelease, cond, lock, inside =>
    (cond = .idle ∨ ∃ w, cond = .signalV w) ∧ lock = .idle ∧ inside = true
  | removeTest, cond, lock, inside =>
    (∃ w, cond.waiter = some w) ∨ cond = .idle ∧ lock.Entering inside

namespace SynchState

/-- A thread in the critical part that will still signal or still take an item
(or find the list empty). -/
def Owes (pc : SynchPc Item) (cond : CondPc) : Prop :=
  pc = .appendSignal ∨ pc = .removeTake ∨
    pc = .removeTest ∧ (cond.waiter = none ∨ cond.passed = true)

/-- A waiter that a `Signal` has taken off the queue. -/
def Signalled (s : SynchState Thread Item) (t : Thread) : Prop :=
  ∃ w ∈ (s.listEmpty.pc t).waiter, w ∉ s.listEmpty.waitQueue

/-- The threads the items on the list are matched with while somebody waits. -/
def Serves (s : SynchState Thread Item) (t : Thread) : Prop :=
  s.listEmpty.lock.Critical t ∧ Owes (s.pc t) (s.listEmpty.pc t) ∨
  ¬ s.listEmpty.lock.Critical t ∧ s.Signalled t

instance (pc : SynchPc Item) (cond : CondPc) : Decidable (Owes pc cond) :=
  inferInstanceAs (Decidable (_ ∨ _ ∨ _ ∧ (_ ∨ _)))

instance (s : SynchState Thread Item) (t : Thread) : Decidable (s.Signalled t) :=
  inferInstanceAs (Decidable (∃ w ∈ (s.listEmpty.pc t).waiter, w ∉ s.listEmpty.waitQueue))

instance (s : SynchState Thread Item) (t : Thread) : Decidable (s.Serves t) :=
  inferInstanceAs (Decidable (_ ∧ _ ∨ _ ∧ _))

/-- How many signalled waiters have not yet re-acquired the lock. -/
def signalledCount [Fintype Thread] (s : SynchState Thread Item) : Nat :=
  count fun t => s.Signalled t ∧ ¬ s.listEmpty.lock.Critical t

end SynchState

/-- The inductive invariant; `served` is the absence of lost wakeups, with the
critical thread counted as long as it owes a signal or a removal. -/
structure SynchInvariant [Fintype Thread] (s : SynchState Thread Item) : Prop where
  place : ∀ t, (s.pc t).At (s.listEmpty.pc t) (s.listEmpty.lock.pc t) (s.listEmpty.lock.inside t)
  order : s.appended = s.removed ++ s.list
  distinct : s.list.Nodup
  stocked : ∀ t, s.pc t = .removeTake → s.list ≠ []
  served : s.listEmpty.waitQueue ≠ [] → s.list.length ≤ count s.Serves

/-- The view one thread has of a step of its own inside the condition's code:
its places there and in the lock's code, and whether it holds the lock. -/
inductive Inner : CondPc → LockPc → Bool → CondPc → LockPc → Bool → Prop
  | test (lock : LockPc) (inside : Bool) (h : lock = .pastP ∨ lock = .acquiring) :
      Inner .idle .acquiring inside .idle lock inside
  | assign (inside : Bool) : Inner .idle .pastP inside .idle .idle true
  | unlock (inside : Bool) : Inner .idle .releasing inside .idle .idle inside
  | waitRelease (w : Nat) : Inner (.waitRelease w) .idle true (.waitUnlock w) .releasing false
  | waitUnlock (w : Nat) : Inner (.waitUnlock w) .releasing false (.waitP w) .idle false
  | waitP (w : Nat) (a b : CondPc) (before : a = .waitP w ∨ a = .waitBlocked w)
      (after : b = .waitAcquire w ∨ b = .waitBlocked w) : Inner a .idle false b .idle false
  | waitAcquire (w : Nat) (lock : LockPc) (h : lock = .pastP ∨ lock = .acquiring) :
      Inner (.waitAcquire w) .idle false (.waitLock w) lock false
  | waitRetest (w : Nat) (lock : LockPc) (h : lock = .pastP ∨ lock = .acquiring) :
      Inner (.waitLock w) .acquiring false (.waitLock w) lock false
  | waitAssign (w : Nat) : Inner (.waitLock w) .pastP false (.waitDelete w) .idle true
  | waitDelete (w : Nat) : Inner (.waitDelete w) .idle true .idle .idle true
  | signalV (w : Nat) : Inner (.signalV w) .idle true .idle .idle true
  | broadcast (a b : CondPc) (h : a.broadcasting = true) : Inner a .idle true b .idle true

theorem CondState.Effect.inner {c c' : CondState Thread} {t : Thread}
    (inv : CondInvariant c) (busy : ¬ c.AtRest t) (h : c.Effect (.step t) c') :
    Inner (c.pc t) (c.lock.pc t) (c.lock.inside t) (c'.pc t) (c'.lock.pc t) (c'.lock.inside t) := by
  have place := inv.place t
  cases h with
  | lock u e after pc call turn locked =>
    have hu : u = t := by simpa [eq_comm] using call
    subst hu
    have own := (LockState.next_effect locked).own turn.thread
    simp only [Function.update_self]
    generalize hpc : c.pc u = a at turn place
    cases turn with
    | plain _ =>
      have hlock : c.lock.pc u ≠ .idle := fun h => busy ⟨hpc, h⟩
      rcases own with ⟨⟨_, h⟩ | ⟨_, h⟩, hpc', hin⟩ | ⟨_, h, hpc', hin⟩ | ⟨_, h, _⟩ | ⟨_, h, hpc', hin⟩
      · exact absurd h hlock
      · rw [h, hin]
        exact .test _ _ hpc'
      · rw [h, hpc', hin]
        exact .assign _
      · exact absurd h hlock
      · rw [h, hpc', hin]
        exact .unlock _
    | release w =>
      simp only [reduceCtorEq, false_and, or_false, false_or, true_and] at own
      rw [place.2, own.1, own.2.1, own.2.2]
      exact .waitRelease w
    | unlock w =>
      simp only [reduceCtorEq, false_and, or_false, false_or, true_and] at own
      rw [place.2] at own
      rw [place.2, own.1, own.2.1, own.2.2]
      exact .waitUnlock w
    | acquire w =>
      simp only [reduceCtorEq, false_and, or_false, true_and] at own
      rw [place.2] at own
      rw [place.2, own.1, own.2.2]
      exact .waitAcquire w _ own.2.1
    | retest w =>
      simp only [reduceCtorEq, false_and, false_or, or_false, true_and] at own
      rw [place.2] at own
      rw [place.2, own.1, own.2.2]
      exact .waitRetest w _ own.2.1
    | assign w =>
      simp only [reduceCtorEq, false_and, false_or, or_false, true_and] at own
      rw [place.2, own.1, own.2.1, own.2.2]
      exact .waitAssign w
  | pass u w sem pc _ _ =>
    have outside : c.lock.pc t = .idle ∧ c.lock.inside t = false := by
      rcases pc with pc | pc <;> rwa [pc] at place
    simp only [Function.update_self, outside.1, outside.2]
    exact .waitP w _ _ pc (.inl rfl)
  | block u w sem pc _ _ =>
    have outside : c.lock.pc t = .idle ∧ c.lock.inside t = false := by
      rcases pc with pc | pc <;> rwa [pc] at place
    simp only [Function.update_self, outside.1, outside.2]
    exact .waitP w _ _ pc (.inr rfl)
  | delete u w pc =>
    rw [pc] at place
    simp only [CondState.deleteWaiter, Function.update_self, place.1, place.2, pc]
    exact .waitDelete w
  | issue u pc _ _ target => simp at target
  | broadcast u w rest pc _ _ =>
    rw [pc] at place
    simp only [CondState.releaseFront, Function.update_self, place.1, place.2, pc]
    exact .broadcast _ _ rfl
  | broadcastDone u pc _ =>
    rw [pc] at place
    simp only [Function.update_self, place.1, place.2, pc]
    exact .broadcast _ _ rfl
  | v u w sem pc where_ _ =>
    rcases where_ with ⟨h, rfl⟩ | ⟨h, rfl⟩
    · rw [h] at place
      simp only [Function.update_self, place.1, place.2, h]
      exact .signalV w
    · rw [h] at place
      simp only [Function.update_self, place.1, place.2, h]
      exact .broadcast _ _ rfl

omit [DecidableEq Item] in
theorem Inner.at {pc : SynchPc Item} {a a' : CondPc} {l l' : LockPc} {i i' : Bool}
    (h : Inner a l i a' l' i') (before : pc.At a l i) : pc.At a' l' i' := by
  cases h with
  | waitP w a b ha hb =>
    rcases ha with rfl | rfl <;> rcases hb with rfl | rfl <;>
      cases pc <;> simp_all [SynchPc.At, CondPc.waiter]
  | broadcast a b hb =>
    cases pc <;> cases a <;> simp_all [SynchPc.At, CondPc.waiter, CondPc.broadcasting]
  | test l i hl =>
    rcases hl with rfl | rfl <;> cases pc <;> simp_all [SynchPc.At, LockPc.Entering, CondPc.waiter]
  | waitAcquire w l hl | waitRetest w l hl =>
    rcases hl with rfl | rfl <;> cases pc <;> simp_all [SynchPc.At, LockPc.Entering, CondPc.waiter]
  | assign | unlock | waitRelease | waitUnlock | waitAssign | waitDelete | signalV =>
    cases pc <;> simp_all [SynchPc.At, LockPc.Entering, CondPc.waiter]

omit [DecidableEq Item] in
/-- A thread goes on serving through its own steps inside the condition's code. -/
theorem Inner.serves {pc : SynchPc Item} {a a' : CondPc} {l l' : LockPc} {i i' : Bool}
    {queue : List Nat} (h : Inner a l i a' l' i') (place : pc.At a l i)
    (before : (l = .pastP ∨ i = true ∨ l = .releasing) ∧ SynchState.Owes pc a ∨
      ¬ (l = .pastP ∨ i = true ∨ l = .releasing) ∧ ∃ w ∈ a.waiter, w ∉ queue) :
    (l' = .pastP ∨ i' = true ∨ l' = .releasing) ∧ SynchState.Owes pc a' ∨
      ¬ (l' = .pastP ∨ i' = true ∨ l' = .releasing) ∧ ∃ w ∈ a'.waiter, w ∉ queue := by
  cases h with
  | waitP w a b ha hb =>
    rcases ha with rfl | rfl <;> rcases hb with rfl | rfl <;>
      simp_all [CondPc.waiter]
  | broadcast a b hb =>
    cases pc <;> cases a <;> simp_all [SynchPc.At, CondPc.waiter, CondPc.broadcasting]
  | test l i hl =>
    cases pc <;> simp_all [SynchPc.At, LockPc.Entering, CondPc.waiter]
  | waitAcquire w l hl | waitRetest w l hl =>
    rcases hl with rfl | rfl <;> cases pc <;>
      simp_all [SynchPc.At, SynchState.Owes, CondPc.waiter, CondPc.passed]
  | assign | unlock | waitRelease | waitUnlock | waitAssign | waitDelete | signalV =>
    cases pc <;>
      simp_all [SynchPc.At, SynchState.Owes, LockPc.Entering, CondPc.waiter, CondPc.passed]

namespace SynchInvariant

variable [Fintype Thread] {s s' : SynchState Thread Item} {t : Thread}

omit [DecidableEq Thread] in
theorem initial : SynchInvariant (SynchState.initial : SynchState Thread Item) where
  place := by simp [SynchState.initial, CondState.initial, LockState.initial, SynchPc.At]
  order := rfl
  distinct := List.nodup_nil
  stocked := by simp [SynchState.initial]
  served := by simp [SynchState.initial, CondState.initial]

omit [DecidableEq Thread] [DecidableEq Item] [Fintype Thread] in
/-- A thread that does not move keeps serving as long as nobody joins the queue. -/
theorem serves_other {u : Thread} (pc : s'.pc u = s.pc u)
    (cond : s'.listEmpty.pc u = s.listEmpty.pc u)
    (lock : s'.listEmpty.lock.pc u = s.listEmpty.lock.pc u)
    (inside : s'.listEmpty.lock.inside u = s.listEmpty.lock.inside u)
    (queue : ∀ w, w ∈ s'.listEmpty.waitQueue → w ∈ s.listEmpty.waitQueue)
    (h : s.Serves u) : s'.Serves u := by
  have critical : s'.listEmpty.lock.Critical u ↔ s.listEmpty.lock.Critical u := by
    simp only [LockState.Critical, lock, inside]
  simp only [SynchState.Serves, SynchState.Signalled, critical, pc, cond] at h ⊢
  refine h.imp_right (And.imp_right ?_)
  rintro ⟨w, hw, hq⟩
  exact ⟨w, hw, fun hmem => hq (queue w hmem)⟩

omit [Fintype Thread] in
/-- A step inside the condition's code only takes waiters off the queue. -/
theorem step_queue {c c' : CondState Thread} (h : c.Effect (.step t) c') (w : Nat)
    (hw : w ∈ c'.waitQueue) : w ∈ c.waitQueue := by
  cases h with
  | broadcast u x rest pc held front =>
    rw [front]
    exact List.mem_cons_of_mem _ hw
  | issue u pc _ _ target => simp at target
  | lock | pass | block | delete | broadcastDone | v => exact hw

omit [DecidableEq Thread] [DecidableEq Item] [Fintype Thread] in
theorem turn_thread {e : CondEvent Thread} {pc : SynchPc Item} (turn : s.Turn t e pc) :
    e.thread = t := by
  cases turn <;> rfl

/-- The caller's own place after a call on the lock or the condition. -/
theorem call_place (inv : SynchInvariant s) (cinv : CondInvariant s.listEmpty)
    {e : CondEvent Thread} {after : CondState Thread} {pc : SynchPc Item}
    (turn : s.Turn t e pc) (cond : CondState.next e s.listEmpty = some after) :
    pc.At (after.pc t) (after.lock.pc t) (after.lock.inside t) := by
  have place := inv.place t
  cases turn with
  | append item hpc rest | removeFront hpc rest =>
    rw [hpc] at place
    obtain ⟨lock, hlock, rfl⟩ := CondState.next_acquire cond
    have own := (LockState.next_effect hlock).own (t := t) rfl
    simp only [reduceCtorEq, false_and, or_false, true_and] at own
    have entering : (lock.pc t).Entering (lock.inside t) :=
      .inl ⟨own.2.1.symm, own.2.2.trans place.2.2⟩
    simp [SynchPc.At, entering]
  | inner busy => exact ((CondState.next_effect cond).inner cinv busy).at place
  | signal hpc rest =>
    rw [hpc] at place
    cases CondState.next_effect cond with
    | lock _ _ _ _ call _ _ => simp at call
    | issue u pc _ _ target =>
      simp only [reduceCtorEq, false_and, or_false, CondEvent.signal.injEq] at target
      obtain ⟨rfl, rfl, _⟩ := target
      simpa [SynchPc.At, CondState.issue] using place.2
    | signal _ w ws _ _ front =>
      simpa [SynchPc.At, CondState.issue, CondState.releaseFront] using place.2
  | release hpc rest =>
    obtain ⟨lock, hlock, rfl⟩ := CondState.next_release cond
    have own := (LockState.next_effect hlock).own (t := t) rfl
    simp only [reduceCtorEq, false_and, or_false, false_or, true_and] at own
    simp [SynchPc.At, own.2.1, own.2.2]
  | wait hpc rest empty =>
    cases CondState.next_effect cond with
    | lock _ _ _ _ call _ _ => simp at call
    | issue _ _ _ _ target => simp at target
    | enqueue _ _ _ => exact .inl ⟨s.listEmpty.nextWaiter, by simp [CondState.enqueue, CondPc.waiter]⟩

omit [DecidableEq Thread] in
theorem not_serves_idle (inv : SynchInvariant s) (hpc : s.pc t = .idle)
    (rest : s.listEmpty.AtRest t) : ¬ s.Serves t := by
  have place := inv.place t
  rw [hpc] at place
  simp [SynchState.Serves, SynchState.Signalled, LockState.Critical, rest.1, rest.2, place.2.2,
    CondPc.waiter]

omit [DecidableEq Thread] in
theorem not_serves_release (inv : SynchInvariant s)
    (hpc : s.pc t = .appendRelease ∨ ∃ item, s.pc t = .removeRelease item) : ¬ s.Serves t := by
  have place := inv.place t
  rcases hpc with hpc | ⟨item, hpc⟩ <;> rw [hpc] at place <;>
    simp [SynchState.Serves, SynchState.Owes, LockState.Critical, hpc, place.2.2]

/-- `Signal` hands the duty of the producer to the waiter it takes off the queue. -/
theorem served_signal (inv : SynchInvariant s) (cinv : CondInvariant s.listEmpty)
    (linv : LockInvariant s.listEmpty.lock) {after : CondState Thread}
    (hpc : s.pc t = .appendSignal)
    (cond : CondState.next (.signal t) s.listEmpty = some after) (waiting : after.waitQueue ≠ []) :
    s.list.length ≤ count (s.called t .appendRelease after).Serves := by
  have effect := CondState.next_effect cond
  have others := fun u (hu : u ≠ t) => effect.others (u := u) hu
  have inside : s.listEmpty.lock.inside t = true := by
    have place := inv.place t
    rw [hpc] at place
    exact place.2.2
  cases effect with
  | lock _ _ _ _ call _ _ => simp at call
  | issue u pc _ _ target =>
    simp only [reduceCtorEq, false_and, or_false, CondEvent.signal.injEq] at target
    exact absurd target.2.2 waiting
  | signal _ w ws _ _ front =>
    obtain ⟨u, hu, hpassed, _⟩ := cinv.pending w (.inl (by simp [front]))
    have hut : u ≠ t := by
      rintro rfl
      have place := inv.place u
      rw [hpc] at place
      simp [place.1, CondPc.waiter] at hu
    have outside : ¬ s.listEmpty.lock.Critical u := fun hcrit =>
      hut (linv.exclusive u t hcrit (.inr (.inl inside)))
    have notYet : ¬ s.Serves u := by
      simp [SynchState.Serves, SynchState.Signalled, outside, hu, front]
    have hnd : w ∉ ws := by
      have := cinv.nodup
      rw [cinv.order, front, List.nodup_append] at this
      exact (List.nodup_cons.mp this.2.1).1
    refine (inv.served (by simp [front])).trans (count_le_swap t u notYet ?_ ?_)
    · refine .inr ⟨outside, w, ?_, hnd⟩
      simpa [SynchState.called, CondState.issue, CondState.releaseFront,
        Function.update_of_ne hut] using hu
    · intro x hxt _ hx
      obtain ⟨cpc, lpc, lin⟩ := others x hxt
      refine serves_other (Function.update_of_ne hxt _ _) cpc lpc lin ?_ hx
      intro y hy
      rw [front]
      exact List.mem_cons_of_mem _ hy

theorem served_call (inv : SynchInvariant s) (cinv : CondInvariant s.listEmpty)
    (linv : LockInvariant s.listEmpty.lock) {e : CondEvent Thread} {after : CondState Thread}
    {pc : SynchPc Item} (turn : s.Turn t e pc)
    (cond : CondState.next e s.listEmpty = some after) (waiting : after.waitQueue ≠ []) :
    s.list.length ≤ count (s.called t pc after).Serves := by
  have effect := CondState.next_effect cond
  have keep : ∀ u, u ≠ t → (∀ w, w ∈ after.waitQueue → w ∈ s.listEmpty.waitQueue) → s.Serves u →
      (s.called t pc after).Serves u := by
    intro u hu queue
    obtain ⟨cpc, lpc, lin⟩ := effect.others (u := u) (by rw [turn_thread turn]; exact hu)
    exact serves_other (Function.update_of_ne hu _ _) cpc lpc lin queue
  have mono : (∀ w, w ∈ after.waitQueue → w ∈ s.listEmpty.waitQueue) →
      (s.Serves t → (s.called t pc after).Serves t) →
      s.list.length ≤ count (s.called t pc after).Serves := by
    intro queue own
    have before : s.listEmpty.waitQueue ≠ [] := by
      obtain ⟨w, hw⟩ := List.exists_mem_of_ne_nil _ waiting
      exact List.ne_nil_of_mem (queue w hw)
    refine (inv.served before).trans (count_le fun u hu => ?_)
    by_cases hut : u = t
    · subst hut
      exact own hu
    · exact keep u hut queue hu
  cases turn with
  | append item hpc rest | removeFront hpc rest =>
    obtain ⟨lock, _, rfl⟩ := CondState.next_acquire cond
    exact mono (fun _ h => h) (fun h => absurd h (inv.not_serves_idle hpc rest))
  | inner busy =>
    refine mono (step_queue effect) (fun h => ?_)
    have served := (effect.inner cinv busy).serves (inv.place t) h
    simp only [SynchState.Serves, SynchState.Signalled, SynchState.called, Function.update_eq_self]
    refine served.imp_right (And.imp_right ?_)
    rintro ⟨w, hw, hq⟩
    exact ⟨w, hw, fun hmem => hq (step_queue effect w hmem)⟩
  | signal hpc rest => exact inv.served_signal cinv linv hpc cond waiting
  | release hpc rest =>
    obtain ⟨lock, _, rfl⟩ := CondState.next_release cond
    exact mono (fun _ h => h) (fun h => absurd h (inv.not_serves_release hpc))
  | wait hpc rest empty => simp [empty]

theorem called (inv : SynchInvariant s) (cinv : CondInvariant s.listEmpty)
    (linv : LockInvariant s.listEmpty.lock) {e : CondEvent Thread} {after : CondState Thread}
    {pc : SynchPc Item} (turn : s.Turn t e pc)
    (cond : CondState.next e s.listEmpty = some after) : SynchInvariant (s.called t pc after) where
  place := by
    intro u
    by_cases hu : u = t
    · subst hu
      simpa [SynchState.called] using inv.call_place cinv turn cond
    · obtain ⟨cpc, lpc, lin⟩ := (CondState.next_effect cond).others (u := u)
        (by rw [turn_thread turn]; exact hu)
      simpa [SynchState.called, Function.update_of_ne hu, cpc, lpc, lin] using inv.place u
  order := inv.order
  distinct := inv.distinct
  stocked := by
    intro u hu
    by_cases hut : u = t
    · subst hut
      simp only [SynchState.called, Function.update_self] at hu
      cases turn with
      | inner busy => exact inv.stocked u hu
      | append | removeFront | signal | release | wait => cases hu
    · exact inv.stocked u (by simpa [SynchState.called, Function.update_of_ne hut] using hu)
  served := inv.served_call cinv linv turn cond

omit [DecidableEq Thread] in
/-- The lock keeps the list to one thread at a time. -/
theorem only_inside (inv : SynchInvariant s) (linv : LockInvariant s.listEmpty.lock)
    (inside : s.listEmpty.lock.inside t = true) {u : Thread} (hu : s.pc u = .removeTake) :
    u = t := by
  have place := inv.place u
  rw [hu] at place
  exact linv.exclusive u t (.inr (.inl place.2.2)) (.inr (.inl inside))

theorem put (inv : SynchInvariant s) {item : Item} (hpc : s.pc t = .appendPut item)
    (rest : s.listEmpty.AtRest t) (fresh : item ∉ s.list) :
    SynchInvariant (s.put t item (s.list ++ [item])) := by
  have place := inv.place t
  rw [hpc] at place
  have inside : s.listEmpty.lock.inside t = true := by
    have := place.2
    simpa [LockPc.Entering, rest.2] using this
  have critical : s.listEmpty.lock.Critical t := .inr (.inl inside)
  exact {
    place := by
      intro u
      by_cases hu : u = t
      · subst hu
        simpa [SynchState.put, SynchPc.At] using ⟨rest.1, rest.2, inside⟩
      · simpa [SynchState.put, Function.update_of_ne hu] using inv.place u
    order := by simp [SynchState.put, inv.order]
    distinct := by
      simp only [SynchState.put]
      rw [List.nodup_append]
      simpa using ⟨inv.distinct, fun a ha => ne_of_mem_of_not_mem ha fresh⟩
    stocked := fun u hu => by simp [SynchState.put]
    served := by
      intro waiting
      have gain : count s.Serves + 1 ≤ count (s.put t item (s.list ++ [item])).Serves := by
        refine count_succ_le t ?_ (.inl ⟨critical, .inl ?_⟩) (fun u hu => ?_)
        · simp [SynchState.Serves, SynchState.Owes, critical, hpc]
        · simp [SynchState.put]
        · exact serves_other (Function.update_of_ne hu _ _) rfl rfl rfl (fun _ h => h)
      have before := inv.served waiting
      simp only [SynchState.put, List.length_append, List.length_singleton] at gain ⊢
      omega }

theorem test (inv : SynchInvariant s) (hpc : s.pc t = .removeTest)
    (rest : s.listEmpty.AtRest t) (stocked : s.list ≠ []) :
    SynchInvariant { s with pc := Function.update s.pc t .removeTake } := by
  have place := inv.place t
  rw [hpc] at place
  have inside : s.listEmpty.lock.inside t = true := by
    rcases place with ⟨w, hw⟩ | ⟨_, entering⟩
    · simp [rest.1, CondPc.waiter] at hw
    · simpa [LockPc.Entering, rest.2] using entering
  exact {
    place := by
      intro u
      by_cases hu : u = t
      · subst hu
        simpa [SynchPc.At] using ⟨rest.1, rest.2, inside⟩
      · simpa [Function.update_of_ne hu] using inv.place u
    order := inv.order
    distinct := inv.distinct
    stocked := fun u _ => stocked
    served := by
      intro waiting
      refine (inv.served waiting).trans (count_le fun u hu => ?_)
      by_cases hut : u = t
      · subst hut
        exact .inl ⟨.inr (.inl inside), .inr (.inl (by simp))⟩
      · exact serves_other (Function.update_of_ne hut _ _) rfl rfl rfl (fun _ h => h) hu }

theorem take (inv : SynchInvariant s) (linv : LockInvariant s.listEmpty.lock) {item : Item}
    {list : List Item} (hpc : s.pc t = .removeTake) (rest : s.listEmpty.AtRest t)
    (front : s.list = item :: list) : SynchInvariant (s.take t item list) := by
  have inside : s.listEmpty.lock.inside t = true := by
    have place := inv.place t
    rw [hpc] at place
    exact place.2.2
  exact {
    place := by
      intro u
      by_cases hu : u = t
      · subst hu
        simpa [SynchState.take, SynchPc.At] using ⟨rest.1, rest.2, inside⟩
      · simpa [SynchState.take, Function.update_of_ne hu] using inv.place u
    order := by simp [SynchState.take, inv.order, front]
    distinct := by
      have := inv.distinct
      rw [front] at this
      exact (List.nodup_cons.mp this).2
    stocked := by
      intro u hu
      have hut : u ≠ t := by
        rintro rfl
        simp [SynchState.take] at hu
      simp only [SynchState.take, Function.update_of_ne hut] at hu
      exact absurd (inv.only_inside linv inside hu) hut
    served := by
      intro waiting
      have loss : count s.Serves ≤ count (s.take t item list).Serves + 1 :=
        count_le_succ t fun u hu =>
          serves_other (Function.update_of_ne hu _ _) rfl rfl rfl (fun _ h => h)
      have before := inv.served waiting
      rw [front, List.length_cons] at before
      simp only [SynchState.take] at loss ⊢
      omega }

theorem of_reachable (h : (synchMachine Thread Item).Reachable s) : SynchInvariant s := by
  induction h with
  | init h => exact h ▸ initial
  | step before _ h inv =>
    have cond := (synchCond Thread Item).reachable before
    have linv := LockInvariant.of_reachable ((condLock Thread).reachable cond)
    cases SynchState.next_effect h with
    | call t e after pc turn hcond => exact inv.called (.of_reachable cond) linv turn hcond
    | put t item pc rest fresh => exact inv.put pc rest fresh
    | test t pc rest stocked => exact inv.test pc rest stocked
    | take t item list pc rest front => exact inv.take linv pc rest front

omit [Fintype Thread] in
/-- A thread that is not in the list's code can call `Append`. -/
theorem append_called (h : (synchMachine Thread Item).Reachable s) (pc : s.pc t = .idle)
    (rest : s.listEmpty.AtRest t) (item : Item) :
    ∃ s', SynchState.next (.append t item) s = some s' := by
  have lock := (condLock Thread).reachable ((synchCond Thread Item).reachable h)
  have sem := SemQueued.of_reachable ((lockSemaphore Thread).reachable lock)
  have linv : LockInvariant s.listEmpty.lock := .of_reachable lock
  have running : s.listEmpty.lock.semaphore.phase t = .running := by
    by_contra waits
    have acquiring := (linv.waiting t).mpr waits
    rw [rest.2] at acquiring
    cases acquiring
  have awake : s.listEmpty.lock.semaphore.phase t ≠ .queued := by simp [running]
  obtain ⟨after, test⟩ : ∃ after, s.listEmpty.lock.semaphore.test t = some after :=
    Option.isSome_iff_exists.mp (sem.test_isSome awake)
  simp [SynchState.next, pc, rest, SynchState.callCond, CondState.next, CondState.lockStep,
    LockState.next, rest.2, SemState.next, running, test]

/-- A thread about to take an item finds one, and returns the front of the list. -/
theorem take_front (inv : SynchInvariant s) (hpc : s.pc t = .removeTake) :
    ∃ item list, s.list = item :: list ∧
      SynchState.next (.step t) s = some (s.take t item list) := by
  have place := inv.place t
  rw [hpc] at place
  obtain ⟨item, list, front⟩ := List.exists_cons_of_ne_nil (inv.stocked t hpc)
  have rest : s.listEmpty.AtRest t := ⟨place.1, place.2.1⟩
  exact ⟨item, list, front, by simp [SynchState.next, rest, SynchState.body, hpc, front, removeFront]⟩

end SynchInvariant

/-- Every interleaving of `Append` and `RemoveFront`: what left the list followed
by what is on it is what was appended, in that order; a thread that reaches
`list->RemoveFront()` finds an item, returns the front one and records it as the
next that left; and while the lock is free and somebody waits, there are at
least as many signalled waiters on their way to the lock as items. -/
theorem synchList_safe [Fintype Thread] (s : SynchState Thread Item)
    (h : (synchMachine Thread Item).Reachable s) :
    s.removed <+: s.appended ∧
    s.appended = s.removed ++ s.list ∧
    s.list.Nodup ∧
    (∀ t, s.pc t = .removeTake → ∃ item list s', s.list = item :: list ∧
      SynchState.next (.step t) s = some s' ∧ s'.pc t = .removeRelease item ∧
      s'.removed = s.removed ++ [item] ∧ s'.list = list) ∧
    (s.listEmpty.lock.semaphore.sem.value = 1 → s.listEmpty.waitQueue ≠ [] →
      s.list.length ≤ s.signalledCount) := by
  have inv := SynchInvariant.of_reachable h
  have linv : LockInvariant s.listEmpty.lock := .of_reachable
    ((condLock Thread).reachable ((synchCond Thread Item).reachable h))
  refine ⟨⟨s.list, inv.order.symm⟩, inv.order, inv.distinct, fun t ht => ?_, fun free waiting => ?_⟩
  · obtain ⟨item, list, front, step⟩ := inv.take_front ht
    exact ⟨item, list, _, front, step, by simp [SynchState.take], rfl, rfl⟩
  · have none : ∀ t, ¬ s.listEmpty.lock.Critical t := by
      intro t ht
      rw [linv.busy t ht] at free
      exact absurd free (by decide)
    refine (inv.served waiting).trans (le_of_eq (count_congr fun t => ?_))
    simp [SynchState.Serves, none t]

end Machine

/-- Threads 1 and 2 wait on the empty list and thread 0 appends item 7. -/
def appendedRun : List (SynchEvent (Fin 3) Nat) :=
  [.removeFront 1, .step 1, .step 1, .step 1, .step 1, .step 1,
    .removeFront 2, .step 2, .step 2, .step 2, .step 2, .step 2,
    .append 0 7, .step 0, .step 0, .step 0, .step 0, .step 0, .step 0]

/-- After the run above the lock is free, one item is on the list and one thread
is still queued: the other has been signalled. -/
theorem synchList_safe_one_signalled :
    ∃ s, (synchMachine (Fin 3) Nat).run appendedRun .initial = some s ∧
      s.list = [7] ∧ s.listEmpty.waitQueue = [1] ∧ s.removed <+: s.appended ∧
      1 ≤ s.signalledCount := by
  have replay : ((synchMachine (Fin 3) Nat).run appendedRun .initial).map
      (fun s => (s.list, s.listEmpty.waitQueue, s.listEmpty.lock.semaphore.sem.value)) =
        some ([7], [1], 1) := by decide +kernel
  obtain ⟨s, hs, hview⟩ := Option.map_eq_some_iff.mp replay
  simp only [Prod.mk.injEq] at hview
  obtain ⟨list, queue, free⟩ := hview
  have safe := synchList_safe s
    ((Machine.Reachable.init (M := synchMachine (Fin 3) Nat) rfl).run appendedRun hs)
  refine ⟨s, hs, list, queue, safe.1, ?_⟩
  simpa [list] using safe.2.2.2.2 free (by simp [queue])

end NachOS.Threads
