import NachOS.Threads.Lock

/-!
# Condition variables (threads/synch.cc:244-297)

One condition variable used with one lock by any number of threads. `Wait`
allocates a semaphore of value 0 for this call, puts it on `waitQueue`, releases
the lock, performs `P` on its semaphore, takes the lock again and deletes the
semaphore. `Signal` removes the front semaphore and performs `V` on it;
`Broadcast` does so until the queue is empty. Every statement that another
thread can see is a step of its own.

Semaphores are named by serial numbers that are never handed out twice, so a `P`
or `V` on a deleted semaphore cannot be masked by a later allocation: it finds
no semaphore and the step does not exist. The history fields (`clock` and below)
record when a waiter entered the queue, when each thread issued its last
`Signal` or `Broadcast`, and which call took a waiter off the queue.
-/
namespace NachOS.Threads
open NachOS.Lib NachOS.Library

/-- Where a thread stands inside `Wait` (with its semaphore), `Signal` or
`Broadcast`. -/
inductive CondPc where
  | idle
  /-- Enqueued, before `conditionLock->Release()`. -/
  | waitRelease (w : Nat)
  /-- Inside `Release`, before its `V`. -/
  | waitUnlock (w : Nat)
  /-- Before the first test of `waiter->P()`. -/
  | waitP (w : Nat)
  /-- Asleep or woken inside `waiter->P()`. -/
  | waitBlocked (w : Nat)
  /-- `waiter->P()` has returned, before `conditionLock->Acquire()`. -/
  | waitAcquire (w : Nat)
  /-- Inside `Acquire`. -/
  | waitLock (w : Nat)
  /-- `Acquire` has returned, before `delete waiter`. -/
  | waitDelete (w : Nat)
  /-- `Signal` has removed `w`, before `waiter->V()`. -/
  | signalV (w : Nat)
  /-- At the loop test of `Broadcast`. -/
  | broadcast
  /-- Inside the `Signal` of `Broadcast`, before `waiter->V()`. -/
  | broadcastV (w : Nat)
  deriving DecidableEq

namespace CondPc

/-- The semaphore of the `Wait` in progress. -/
def waiter : CondPc → Option Nat
  | waitRelease w | waitUnlock w | waitP w | waitBlocked w | waitAcquire w | waitLock w
  | waitDelete w => some w
  | _ => none

/-- `waiter->P()` has returned. -/
def passed : CondPc → Bool
  | waitAcquire _ | waitLock _ | waitDelete _ => true
  | _ => false

/-- The semaphore taken off the queue on which `V` is still to be performed. -/
def signalling : CondPc → Option Nat
  | signalV w | broadcastV w => some w
  | _ => none

def broadcasting : CondPc → Bool
  | broadcast | broadcastV _ => true
  | _ => false

/-- What a place in the condition's code says about the thread's place in the
lock's code and about whether it holds the lock. -/
def LockAt : CondPc → LockPc → Bool → Prop
  | idle, _, _ => True
  | waitRelease _, pc, inside | waitDelete _, pc, inside | signalV _, pc, inside
  | broadcast, pc, inside | broadcastV _, pc, inside => pc = .idle ∧ inside = true
  | waitUnlock _, pc, inside => pc = .releasing ∧ inside = false
  | waitP _, pc, inside | waitBlocked _, pc, inside | waitAcquire _, pc, inside =>
    pc = .idle ∧ inside = false
  | waitLock _, pc, inside => (pc = .acquiring ∨ pc = .pastP) ∧ inside = false

end CondPc

structure CondState (Thread : Type*) where
  lock : LockState Thread
  waitQueue : List Nat
  /-- The waiter semaphores that exist. -/
  waiters : Nat → Option (SemState Thread)
  nextWaiter : Nat
  pc : Thread → CondPc
  clock : Nat
  enqueued : List Nat
  released : List Nat
  enqueuedAt : Nat → Nat
  issuedAt : Thread → Nat
  releasedBy : Nat → Option (Thread × Nat)

/-- The calls a thread can make, and the next step of a call in progress. -/
inductive CondEvent (Thread : Type*) where
  | acquire (t : Thread)
  | release (t : Thread)
  | wait (t : Thread)
  | signal (t : Thread)
  | broadcast (t : Thread)
  | step (t : Thread)

/-- The thread that takes the step. -/
def CondEvent.thread {Thread : Type*} : CondEvent Thread → Thread
  | acquire t | release t | wait t | signal t | broadcast t | step t => t

section Machine

variable {Thread : Type*} [DecidableEq Thread]

/-- The next step of the `Acquire` or `Release` that `t` is inside. -/
def LockState.continues (s : LockState Thread) (t : Thread) : Option (LockEvent Thread) :=
  match s.pc t with
  | .idle => none
  | .acquiring => some (.retest t)
  | .pastP => some (.setHolder t)
  | .releasing => some (.v t)

namespace CondState

def initial : CondState Thread where
  lock := .initial
  waitQueue := []
  waiters := fun _ => none
  nextWaiter := 0
  pc := fun _ => .idle
  clock := 0
  enqueued := []
  released := []
  enqueuedAt := fun _ => 0
  issuedAt := fun _ => 0
  releasedBy := fun _ => none

/-- `t` is not inside any call. -/
def AtRest (s : CondState Thread) (t : Thread) : Prop :=
  s.pc t = .idle ∧ s.lock.pc t = .idle

instance (s : CondState Thread) (t : Thread) : Decidable (s.AtRest t) :=
  inferInstanceAs (Decidable (_ ∧ _))

/-- A step of the lock's code, after which `t` is at `pc`. -/
def lockStep (s : CondState Thread) (t : Thread) (e : LockEvent Thread) (pc : CondPc) :
    Option (CondState Thread) :=
  (LockState.next e s.lock).map fun lock => { s with lock, pc := Function.update s.pc t pc }

/-- `waiter = new Semaphore("condition", 0); waitQueue->Append(waiter)`. -/
def enqueue (s : CondState Thread) (t : Thread) (waitQueue : List Nat) : CondState Thread :=
  { s with
    waitQueue
    waiters := Function.update s.waiters s.nextWaiter (some (.initial 0))
    nextWaiter := s.nextWaiter + 1
    pc := Function.update s.pc t (.waitRelease s.nextWaiter)
    clock := s.clock + 1
    enqueued := s.enqueued ++ [s.nextWaiter]
    enqueuedAt := Function.update s.enqueuedAt s.nextWaiter s.clock }

/-- A pass of `waiter->P()`. -/
def waiterP (s : CondState Thread) (t : Thread) (w : Nat) (e : SemEvent Thread) :
    Option (CondState Thread) :=
  match s.waiters w with
  | none => none
  | some sem => (SemState.next e sem).map fun sem =>
    { s with
      waiters := Function.update s.waiters w (some sem)
      pc := Function.update s.pc t
        (if sem.phase t = .running then .waitAcquire w else .waitBlocked w) }

/-- `waiter->V()`, after which `t` is at `pc`. -/
def waiterV (s : CondState Thread) (t : Thread) (w : Nat) (pc : CondPc) :
    Option (CondState Thread) :=
  match s.waiters w with
  | none => none
  | some sem =>
    some { s with
      waiters := Function.update s.waiters w (some sem.signal)
      pc := Function.update s.pc t pc }

/-- `delete waiter`, the end of `Wait`. -/
def deleteWaiter (s : CondState Thread) (t : Thread) (w : Nat) : CondState Thread :=
  { s with
    waiters := Function.update s.waiters w none
    pc := Function.update s.pc t .idle }

/-- The call of a `Signal` or `Broadcast` is recorded. -/
def issue (s : CondState Thread) (t : Thread) (pc : CondPc) : CondState Thread :=
  { s with
    clock := s.clock + 1
    issuedAt := Function.update s.issuedAt t s.clock
    pc := Function.update s.pc t pc }

/-- `waiter = waitQueue->RemoveFront()`, where `w` is the front. -/
def releaseFront (s : CondState Thread) (t : Thread) (w : Nat) (rest : List Nat) (pc : CondPc) :
    CondState Thread :=
  { s with
    waitQueue := rest
    released := s.released ++ [w]
    releasedBy := Function.update s.releasedBy w (some (t, s.issuedAt t))
    pc := Function.update s.pc t pc }

/-- The body of `Condition::Signal` up to its `V`: the assertion, the test of the
queue and `RemoveFront`, after which the thread is at `front w`. -/
def signalBody (s : CondState Thread) (t : Thread) (front : Nat → CondPc) :
    Option (CondState Thread) :=
  if s.lock.isHeldByCurrentThread t then
    match removeFront s.waitQueue with
    | none => some s
    | some (w, rest) => some (s.releaseFront t w rest (front w))
  else none

/-- The next step of the call that `t` is inside. -/
def stepThread (s : CondState Thread) (t : Thread) : Option (CondState Thread) :=
  match s.pc t with
  | .idle => (s.lock.continues t).bind fun e => s.lockStep t e .idle
  | .waitRelease w => s.lockStep t (.release t) (.waitUnlock w)
  | .waitUnlock w => s.lockStep t (.v t) (.waitP w)
  | .waitP w => s.waiterP t w (.p t)
  | .waitBlocked w => s.waiterP t w (.retest t)
  | .waitAcquire w => s.lockStep t (.acquire t) (.waitLock w)
  | .waitLock w =>
    if s.lock.pc t = .pastP then s.lockStep t (.setHolder t) (.waitDelete w)
    else s.lockStep t (.retest t) (.waitLock w)
  | .waitDelete w => some (s.deleteWaiter t w)
  | .signalV w => s.waiterV t w .idle
  | .broadcast =>
    if s.waitQueue = [] then some { s with pc := Function.update s.pc t .idle }
    else s.signalBody t .broadcastV
  | .broadcastV w => s.waiterV t w .broadcast

def next : CondEvent Thread → CondState Thread → Option (CondState Thread)
  | .acquire t, s => if s.AtRest t then s.lockStep t (.acquire t) .idle else none
  | .release t, s => if s.AtRest t then s.lockStep t (.release t) .idle else none
  | .wait t, s =>
    if s.AtRest t ∧ s.lock.isHeldByCurrentThread t then
      (append s.waitQueue s.nextWaiter).map (s.enqueue t)
    else none
  | .signal t, s =>
    if s.AtRest t then (s.issue t .idle).signalBody t .signalV else none
  | .broadcast t, s =>
    if s.AtRest t ∧ s.lock.isHeldByCurrentThread t then some (s.issue t .broadcast) else none
  | .step t, s => s.stepThread t

end CondState

/-- All interleavings of the calls on one lock and one condition variable. -/
def condMachine (Thread : Type*) [DecidableEq Thread] :
    Machine (CondState Thread) (CondEvent Thread) where
  init s := s = .initial
  next := CondState.next

namespace CondState

variable {s s' : CondState Thread} {t : Thread}

/-- The lock steps of the condition's code: from which place to which place. -/
inductive LockTurn (t : Thread) : LockEvent Thread → CondPc → CondPc → Prop
  | plain {e : LockEvent Thread} (own : e.thread = t) : LockTurn t e .idle .idle
  | release (w : Nat) : LockTurn t (.release t) (.waitRelease w) (.waitUnlock w)
  | unlock (w : Nat) : LockTurn t (.v t) (.waitUnlock w) (.waitP w)
  | acquire (w : Nat) : LockTurn t (.acquire t) (.waitAcquire w) (.waitLock w)
  | retest (w : Nat) : LockTurn t (.retest t) (.waitLock w) (.waitLock w)
  | assign (w : Nat) : LockTurn t (.setHolder t) (.waitLock w) (.waitDelete w)

/-- Everything one event can do. -/
inductive Effect (s : CondState Thread) : CondEvent Thread → CondState Thread → Prop
  | lock {event : CondEvent Thread} (t : Thread) (e : LockEvent Thread)
      (after : LockState Thread) (pc : CondPc)
      (call : event = .acquire t ∨ event = .release t ∨ event = .step t)
      (turn : LockTurn t e (s.pc t) pc) (locked : LockState.next e s.lock = some after) :
      Effect s event { s with lock := after, pc := Function.update s.pc t pc }
  | enqueue (t : Thread) (rest : s.AtRest t) (held : s.lock.lockHolder = some t) :
      Effect s (.wait t) (s.enqueue t (s.waitQueue ++ [s.nextWaiter]))
  | pass (t : Thread) (w : Nat) (sem : SemState Thread)
      (pc : s.pc t = .waitP w ∨ s.pc t = .waitBlocked w) (live : s.waiters w = some sem)
      (available : sem.sem.value ≠ 0) :
      Effect s (.step t) { s with
        waiters := Function.update s.waiters w (some (sem.consumed t))
        pc := Function.update s.pc t (.waitAcquire w) }
  | block (t : Thread) (w : Nat) (sem : SemState Thread)
      (pc : s.pc t = .waitP w ∨ s.pc t = .waitBlocked w) (live : s.waiters w = some sem)
      (unavailable : sem.sem.value = 0) :
      Effect s (.step t) { s with
        waiters := Function.update s.waiters w (some (sem.slept t))
        pc := Function.update s.pc t (.waitBlocked w) }
  | delete (t : Thread) (w : Nat) (pc : s.pc t = .waitDelete w) :
      Effect s (.step t) (s.deleteWaiter t w)
  | issue {event : CondEvent Thread} (t : Thread) (pc : CondPc) (rest : s.AtRest t)
      (held : s.lock.lockHolder = some t)
      (target : event = .signal t ∧ pc = .idle ∧ s.waitQueue = [] ∨
        event = .broadcast t ∧ pc = .broadcast) : Effect s event (s.issue t pc)
  | signal (t : Thread) (w : Nat) (rest : List Nat) (atRest : s.AtRest t)
      (held : s.lock.lockHolder = some t) (front : s.waitQueue = w :: rest) :
      Effect s (.signal t) ((s.issue t .idle).releaseFront t w rest (.signalV w))
  | broadcast (t : Thread) (w : Nat) (rest : List Nat) (pc : s.pc t = .broadcast)
      (held : s.lock.lockHolder = some t) (front : s.waitQueue = w :: rest) :
      Effect s (.step t) (s.releaseFront t w rest (.broadcastV w))
  | broadcastDone (t : Thread) (pc : s.pc t = .broadcast) (empty : s.waitQueue = []) :
      Effect s (.step t) { s with pc := Function.update s.pc t .idle }
  | v (t : Thread) (w : Nat) (sem : SemState Thread) (pc : CondPc)
      (place : s.pc t = .signalV w ∧ pc = .idle ∨ s.pc t = .broadcastV w ∧ pc = .broadcast)
      (live : s.waiters w = some sem) :
      Effect s (.step t) { s with
        waiters := Function.update s.waiters w (some sem.signal)
        pc := Function.update s.pc t pc }

theorem lockStep_effect {event : CondEvent Thread} {e : LockEvent Thread} {pc : CondPc}
    (call : event = .acquire t ∨ event = .release t ∨ event = .step t)
    (turn : LockTurn t e (s.pc t) pc) (h : s.lockStep t e pc = some s') : s.Effect event s' := by
  obtain ⟨after, hlock, rfl⟩ := Option.map_eq_some_iff.mp h
  exact .lock t e after pc call turn hlock

theorem waiterP_effect {w : Nat} {e : SemEvent Thread} (event : e = .p t ∨ e = .retest t)
    (pc : s.pc t = .waitP w ∨ s.pc t = .waitBlocked w) (h : s.waiterP t w e = some s') :
    s.Effect (.step t) s' := by
  unfold waiterP at h
  split at h
  · cases h
  next sem live =>
    obtain ⟨after, hsem, rfl⟩ := Option.map_eq_some_iff.mp h
    have tested : sem.test t = some after := by
      rcases event with rfl | rfl
      · simp only [SemState.next] at hsem
        split at hsem
        · exact hsem
        · cases hsem
      · simp only [SemState.next] at hsem
        split at hsem
        · exact hsem
        · cases hsem
    rcases SemState.test_cases tested with ⟨hv, rfl⟩ | ⟨hv, _, rfl⟩
    · have running : (sem.consumed t).phase t = .running := by simp [SemState.consumed]
      simp only [running, if_true]
      exact .pass t w sem pc live hv
    · have queued : (sem.slept t).phase t = .queued := by simp [SemState.slept]
      simp only [queued, reduceCtorEq, if_false]
      exact .block t w sem pc live hv

theorem waiterV_live {w : Nat} {sem : SemState Thread} (live : s.waiters w = some sem)
    (pc : CondPc) : s.waiterV t w pc = some { s with
      waiters := Function.update s.waiters w (some sem.signal)
      pc := Function.update s.pc t pc } := by
  simp only [waiterV, live]

theorem waiterV_effect {w : Nat} {pc : CondPc}
    (place : s.pc t = .signalV w ∧ pc = .idle ∨ s.pc t = .broadcastV w ∧ pc = .broadcast)
    (h : s.waiterV t w pc = some s') : s.Effect (.step t) s' := by
  unfold waiterV at h
  split at h
  · cases h
  next sem live =>
    cases h
    exact .v t w sem pc place live

theorem stepThread_effect (h : s.stepThread t = some s') : s.Effect (.step t) s' := by
  unfold stepThread at h
  split at h
  next hpc =>
    obtain ⟨e, he, hstep⟩ := Option.bind_eq_some_iff.mp h
    have own : e.thread = t := by
      unfold LockState.continues at he
      split at he <;> cases he <;> rfl
    exact lockStep_effect (.inr (.inr rfl)) (hpc ▸ .plain own) hstep
  next w hpc => exact lockStep_effect (.inr (.inr rfl)) (hpc ▸ .release w) h
  next w hpc => exact lockStep_effect (.inr (.inr rfl)) (hpc ▸ .unlock w) h
  next w hpc => exact waiterP_effect (.inl rfl) (.inl hpc) h
  next w hpc => exact waiterP_effect (.inr rfl) (.inr hpc) h
  next w hpc => exact lockStep_effect (.inr (.inr rfl)) (hpc ▸ .acquire w) h
  next w hpc =>
    split at h
    · exact lockStep_effect (.inr (.inr rfl)) (hpc ▸ .assign w) h
    · exact lockStep_effect (.inr (.inr rfl)) (by rw [hpc]; exact .retest w) h
  next w hpc =>
    cases h
    exact .delete t w hpc
  next w hpc => exact waiterV_effect (.inl ⟨hpc, rfl⟩) h
  next hpc =>
    split at h
    next hempty =>
      cases h
      exact .broadcastDone t hpc hempty
    next hne =>
      unfold signalBody at h
      split at h
      next held =>
        cases hq : s.waitQueue with
        | nil => exact absurd hq hne
        | cons w rest =>
          simp only [hq, removeFront, Option.some.injEq] at h
          subst h
          exact .broadcast t w rest hpc (LockState.isHeld_iff.mp held) hq
      · cases h
  next w hpc => exact waiterV_effect (.inr ⟨hpc, rfl⟩) h

theorem next_effect {e : CondEvent Thread} (h : next e s = some s') : s.Effect e s' := by
  cases e with
  | acquire t =>
    simp only [next] at h
    split at h
    next rest => exact lockStep_effect (.inl rfl) (by rw [rest.1]; exact .plain rfl) h
    · cases h
  | release t =>
    simp only [next] at h
    split at h
    next rest => exact lockStep_effect (.inr (.inl rfl)) (by rw [rest.1]; exact .plain rfl) h
    · cases h
  | wait t =>
    simp only [next] at h
    split at h
    next guard =>
      obtain ⟨queue, hq, rfl⟩ := Option.map_eq_some_iff.mp h
      rw [(append_eq_some.mp hq).2]
      exact .enqueue t guard.1 (LockState.isHeld_iff.mp guard.2)
    · cases h
  | signal t =>
    simp only [next, signalBody] at h
    split at h
    next rest =>
      split at h
      next held =>
        have holder : s.lock.lockHolder = some t := LockState.isHeld_iff.mp held
        cases hq : s.waitQueue with
        | nil =>
          simp only [issue, hq, removeFront, Option.some.injEq] at h
          subst h
          have same := Effect.issue (s := s) t .idle rest holder (.inl ⟨rfl, rfl, hq⟩)
          simpa only [issue, hq] using same
        | cons w ws =>
          simp only [issue, hq, removeFront, Option.some.injEq] at h
          subst h
          have same := Effect.signal t w ws rest holder hq
          simpa only [issue, hq] using same
      · cases h
    · cases h
  | broadcast t =>
    simp only [next] at h
    split at h
    next guard =>
      cases h
      exact .issue t .broadcast guard.1
        (LockState.isHeld_iff.mp guard.2) (.inr ⟨rfl, rfl⟩)
    · cases h
  | step t => exact stepThread_effect h

omit [DecidableEq Thread] in
theorem LockTurn.thread {e : LockEvent Thread} {a b : CondPc}
    (turn : LockTurn t e a b) : e.thread = t := by
  cases turn with
  | plain own => exact own
  | release | unlock | acquire | retest | assign => rfl

/-- A step of one thread moves no other thread. -/
theorem Effect.others {e : CondEvent Thread} (h : s.Effect e s') {u : Thread}
    (hu : u ≠ e.thread) :
    s'.pc u = s.pc u ∧ s'.lock.pc u = s.lock.pc u ∧ s'.lock.inside u = s.lock.inside u := by
  cases h with
  | lock t e after pc call turn locked =>
    have ht : u ≠ t := by rcases call with rfl | rfl | rfl <;> exact hu
    have moved := (LockState.next_effect locked).others (u := u) (by rw [turn.thread]; exact ht)
    exact ⟨Function.update_of_ne ht _ _, moved⟩
  | issue t pc _ _ target =>
    have ht : u ≠ t := by rcases target with ⟨rfl, _⟩ | ⟨rfl, _⟩ <;> exact hu
    exact ⟨Function.update_of_ne ht _ _, rfl, rfl⟩
  | signal t w rest _ _ _ =>
    have ht : u ≠ t := hu
    simp [CondState.issue, releaseFront, Function.update_of_ne ht]
  | enqueue t | pass t | block t | delete t | broadcast t | broadcastDone t | v t =>
    have ht : u ≠ t := hu
    exact ⟨Function.update_of_ne ht _ _, rfl, rfl⟩

theorem next_acquire (h : next (.acquire t) s = some s') :
    ∃ after, LockState.next (.acquire t) s.lock = some after ∧
      s' = { s with lock := after, pc := Function.update s.pc t .idle } := by
  simp only [next] at h
  split at h
  · obtain ⟨after, hlock, rfl⟩ := Option.map_eq_some_iff.mp h
    exact ⟨after, hlock, rfl⟩
  · cases h

theorem next_release (h : next (.release t) s = some s') :
    ∃ after, LockState.next (.release t) s.lock = some after ∧
      s' = { s with lock := after, pc := Function.update s.pc t .idle } := by
  simp only [next] at h
  split at h
  · obtain ⟨after, hlock, rfl⟩ := Option.map_eq_some_iff.mp h
    exact ⟨after, hlock, rfl⟩
  · cases h

end CondState

/-- The lock under a condition variable is run as a lock. -/
def condLock (Thread : Type*) [DecidableEq Thread] :
    Machine.Projection (condMachine Thread) (lockMachine Thread) where
  abs := CondState.lock
  init := by
    rintro s rfl
    rfl
  step := by
    intro e s s' h
    cases CondState.next_effect h with
    | lock t e after pc _ _ locked => exact .inr ⟨e, locked⟩
    | enqueue | pass | block | delete | issue | signal | broadcast | broadcastDone | v =>
      exact .inl rfl

/-- The inductive invariant. `pending` and `passable` are the life of a waiter:
in the queue or just taken off it, its semaphore is 0 and its owner is still
before the end of `P`; once `V` is done and until the owner passes, it is 1. -/
structure CondInvariant (s : CondState Thread) : Prop where
  place : ∀ t, (s.pc t).LockAt (s.lock.pc t) (s.lock.inside t)
  order : s.enqueued = s.released ++ s.waitQueue
  nodup : s.enqueued.Nodup
  bound : ∀ w ∈ s.enqueued, w < s.nextWaiter ∧ s.enqueuedAt w < s.clock
  owner : ∀ t w, (s.pc t).waiter = some w → w ∈ s.enqueued ∧ (s.waiters w).isSome
  unique : ∀ t u w, (s.pc t).waiter = some w → (s.pc u).waiter = some w → t = u
  signalled : ∀ t w, (s.pc t).signalling = some w → w ∈ s.released
  pending : ∀ w, (w ∈ s.waitQueue ∨ ∃ u, (s.pc u).signalling = some w) →
    ∃ t, (s.pc t).waiter = some w ∧ (s.pc t).passed = false ∧
      ∃ sem, s.waiters w = some sem ∧ sem.sem.value = 0
  passable : ∀ t w, (s.pc t).waiter = some w → (s.pc t).passed = false → w ∉ s.waitQueue →
    (∀ u, (s.pc u).signalling ≠ some w) → ∃ sem, s.waiters w = some sem ∧ sem.sem.value = 1
  issued : ∀ w ∈ s.released, ∃ u i, s.releasedBy w = some (u, i) ∧ s.enqueuedAt w < i
  broadcasting : ∀ t, (s.pc t).broadcasting = true → ∀ w ∈ s.waitQueue,
    s.enqueuedAt w < s.issuedAt t

omit [DecidableEq Thread] in
theorem CondInvariant.initial : CondInvariant (CondState.initial : CondState Thread) := by
  constructor <;> simp [CondState.initial, CondPc.LockAt, CondPc.waiter, CondPc.signalling,
    CondPc.broadcasting]

/-- A property of the place of a thread that a move keeps. -/
theorem pc_congr {β : Type*} {s : CondState Thread} {t : Thread} {p : CondPc} (f : CondPc → β)
    (h : f p = f (s.pc t)) (u : Thread) : f (Function.update s.pc t p u) = f (s.pc u) := by
  by_cases hu : u = t
  · subst hu
    simpa using h
  · rw [Function.update_of_ne hu]

omit [DecidableEq Thread] in
theorem CondState.LockTurn.view {t : Thread} {e : LockEvent Thread} {a b : CondPc}
    (turn : CondState.LockTurn t e a b) :
    b.waiter = a.waiter ∧ b.passed = a.passed ∧ b.signalling = a.signalling ∧
      b.broadcasting = a.broadcasting := by
  cases turn <;> exact ⟨rfl, rfl, rfl, rfl⟩

namespace CondInvariant

variable {s s' : CondState Thread} {t : Thread}

/-- Placement after a move of `t` alone that leaves the lock's state as it is. -/
theorem place_update (inv : CondInvariant s) {pc : CondPc}
    (h : pc.LockAt (s.lock.pc t) (s.lock.inside t)) (u : Thread) :
    (Function.update s.pc t pc u).LockAt (s.lock.pc u) (s.lock.inside u) := by
  by_cases hu : u = t
  · subst hu
    simpa using h
  · rw [Function.update_of_ne hu]
    exact inv.place u

/-- The lock's own steps keep every thread where the condition's code expects it. -/
theorem place_lock (inv : CondInvariant s) {e : LockEvent Thread}
    {after : LockState Thread} {pc : CondPc} (turn : CondState.LockTurn t e (s.pc t) pc)
    (locked : LockState.next e s.lock = some after) (u : Thread) :
    (Function.update s.pc t pc u).LockAt (after.pc u) (after.inside u) := by
  have effect := LockState.next_effect locked
  by_cases hu : u = t
  · subst hu
    have own := effect.own turn.thread
    have before := inv.place u
    generalize hpc : s.pc u = place at turn before
    rw [Function.update_self]
    cases turn with
    | plain _ => trivial
    | release w =>
      simp only [reduceCtorEq, false_and, or_false, false_or, true_and] at own
      exact own.2
    | unlock w =>
      simp only [reduceCtorEq, false_and, or_false, false_or, true_and] at own
      exact ⟨own.2.1, own.2.2.trans before.2⟩
    | acquire w | retest w =>
      simp only [reduceCtorEq, false_and, or_false, false_or, true_and] at own
      exact ⟨own.2.1.symm, own.2.2.trans before.2⟩
    | assign w =>
      simp only [reduceCtorEq, false_and, or_false, false_or, true_and] at own
      exact own.2
  · have others := effect.others (u := u) (by rw [turn.thread]; exact hu)
    rw [Function.update_of_ne hu, others.1, others.2]
    exact inv.place u

/-- A move of `t` that leaves the waiters and the queue alone, with `t` in the same relation to
its waiter as before. -/
theorem moved (inv : CondInvariant s) {after : LockState Thread} {pc : CondPc} {clock : Nat}
    {issuedAt : Thread → Nat} (hwaiter : pc.waiter = (s.pc t).waiter)
    (hpassed : pc.passed = (s.pc t).passed) (hsignalling : pc.signalling = (s.pc t).signalling)
    (later : s.clock ≤ clock)
    (place : ∀ u, (Function.update s.pc t pc u).LockAt (after.pc u) (after.inside u))
    (broadcasting : ∀ u, (Function.update s.pc t pc u).broadcasting = true →
      ∀ w ∈ s.waitQueue, s.enqueuedAt w < issuedAt u) :
    CondInvariant { s with lock := after, pc := Function.update s.pc t pc, clock, issuedAt } := by
  have waiter := pc_congr CondPc.waiter hwaiter
  have passed := pc_congr CondPc.passed hpassed
  have signalling := pc_congr CondPc.signalling hsignalling
  exact {
    place
    order := inv.order
    nodup := inv.nodup
    bound := by
      intro w hw
      obtain ⟨number, time⟩ := inv.bound w hw
      exact ⟨number, time.trans_le later⟩
    owner := by simpa only [waiter] using inv.owner
    unique := by simpa only [waiter] using inv.unique
    signalled := by simpa only [signalling] using inv.signalled
    pending := by simpa only [waiter, passed, signalling] using inv.pending
    passable := by simpa only [waiter, passed, signalling] using inv.passable
    issued := inv.issued
    broadcasting }

theorem lock (inv : CondInvariant s) {e : LockEvent Thread}
    {after : LockState Thread} {pc : CondPc} (turn : CondState.LockTurn t e (s.pc t) pc)
    (locked : LockState.next e s.lock = some after) :
    CondInvariant { s with lock := after, pc := Function.update s.pc t pc } := by
  obtain ⟨waiter, passed, signalling, hbroadcasting⟩ := turn.view
  have broadcasting := pc_congr CondPc.broadcasting hbroadcasting
  apply inv.moved waiter passed signalling le_rfl (inv.place_lock turn locked)
  simpa only [broadcasting] using inv.broadcasting

theorem enqueue (inv : CondInvariant s) (rest : s.AtRest t) (inside : s.lock.inside t = true)
    (alone : ∀ u, (s.pc u).broadcasting = false) :
    CondInvariant (s.enqueue t (s.waitQueue ++ [s.nextWaiter])) := by
  have fresh : s.nextWaiter ∉ s.enqueued := fun h => absurd (inv.bound _ h).1 (by omega)
  have hpc : s.pc t = .idle := rest.1
  have signalling := pc_congr (s := s) (t := t) (p := .waitRelease s.nextWaiter)
    CondPc.signalling (by simp [hpc, CondPc.signalling])
  have broadcasting := pc_congr (s := s) (t := t) (p := .waitRelease s.nextWaiter)
    CondPc.broadcasting (by simp [hpc, CondPc.broadcasting])
  have old : ∀ {w}, w ∈ s.enqueued → w ≠ s.nextWaiter := fun h e => fresh (e ▸ h)
  have waiter : ∀ u w, (Function.update s.pc t (.waitRelease s.nextWaiter) u).waiter = some w →
      (u = t ∧ w = s.nextWaiter) ∨ (u ≠ t ∧ (s.pc u).waiter = some w ∧ w ∈ s.enqueued) := by
    intro u w hw
    by_cases hu : u = t
    · subst hu
      simp [CondPc.waiter] at hw
      exact .inl ⟨rfl, hw.symm⟩
    · rw [Function.update_of_ne hu] at hw
      exact .inr ⟨hu, hw, (inv.owner u w hw).1⟩
  exact {
    place := inv.place_update ⟨rest.2, inside⟩
    order := by simp [CondState.enqueue, inv.order]
    nodup := by
      simp only [CondState.enqueue]
      rw [List.nodup_append]
      simpa using ⟨inv.nodup, fun a ha => ne_of_mem_of_not_mem ha fresh⟩
    bound := by
      intro w hw
      simp only [CondState.enqueue, List.mem_append, List.mem_singleton] at hw ⊢
      rcases hw with hw | rfl
      · have := inv.bound w hw
        rw [Function.update_of_ne (old hw)]
        omega
      · simp
    owner := by
      intro u w hw
      rcases waiter u w hw with ⟨_, rfl⟩ | ⟨_, h, hmem⟩
      · simp [CondState.enqueue]
      · simp only [CondState.enqueue, Function.update_of_ne (old hmem), List.mem_append, hmem]
        exact ⟨.inl trivial, (inv.owner u w h).2⟩
    unique := by
      intro u x w hu hx
      rcases waiter u w hu with ⟨rfl, rfl⟩ | ⟨_, h, hmem⟩ <;>
        rcases waiter x _ hx with ⟨rfl, hw⟩ | ⟨_, h', hmem'⟩
      · rfl
      · exact absurd rfl (old hmem')
      · exact absurd hw (old hmem)
      · exact inv.unique u x w h h'
    signalled := by
      intro u w hw
      simp only [CondState.enqueue, signalling] at hw
      exact inv.signalled u w hw
    pending := by
      intro w hw
      simp only [CondState.enqueue, signalling, List.mem_append, List.mem_singleton] at hw
      have cases : (w ∈ s.waitQueue ∨ ∃ u, (s.pc u).signalling = some w) ∨ w = s.nextWaiter := by
        tauto
      rcases cases with h | rfl
      · obtain ⟨u, hu, hpassed, sem, hsem, hv⟩ := inv.pending w h
        have hne : u ≠ t := by
          rintro rfl
          simp [hpc, CondPc.waiter] at hu
        have hmem := (inv.owner u w hu).1
        refine ⟨u, ?_, ?_, sem, ?_, hv⟩
        · simpa [CondState.enqueue, Function.update_of_ne hne] using hu
        · simpa [CondState.enqueue, Function.update_of_ne hne] using hpassed
        · simpa [CondState.enqueue, Function.update_of_ne (old hmem)] using hsem
      · refine ⟨t, ?_, ?_, .initial 0, ?_, rfl⟩ <;>
          simp [CondState.enqueue, CondPc.waiter, CondPc.passed]
    passable := by
      intro u w hw hpassed hq hsig
      rcases waiter u w hw with ⟨_, rfl⟩ | ⟨hne, h, hmem⟩
      · simp [CondState.enqueue] at hq
      · simp only [CondState.enqueue, signalling] at hsig
        simp only [CondState.enqueue, Function.update_of_ne hne] at hpassed
        simp only [CondState.enqueue, List.mem_append, not_or] at hq
        simpa [CondState.enqueue, Function.update_of_ne (old hmem)] using
          inv.passable u w h hpassed hq.1 hsig
    issued := by
      intro w hw
      have hmem : w ∈ s.enqueued := by
        rw [inv.order]
        exact List.mem_append_left _ hw
      simpa [CondState.enqueue, Function.update_of_ne (old hmem)] using inv.issued w hw
    broadcasting := by
      intro u hu
      simp only [CondState.enqueue, broadcasting, alone u, Bool.false_eq_true] at hu }

omit [DecidableEq Thread] in
/-- A semaphore with a unit is neither in the queue nor about to be signalled. -/
theorem not_pending (inv : CondInvariant s) {w : Nat} {sem : SemState Thread}
    (live : s.waiters w = some sem) (available : sem.sem.value ≠ 0) :
    w ∉ s.waitQueue ∧ ∀ u, (s.pc u).signalling ≠ some w := by
  constructor
  · intro h
    obtain ⟨_, _, _, sem', hsem', hv⟩ := inv.pending w (.inl h)
    rw [live, Option.some.injEq] at hsem'
    exact available (hsem' ▸ hv)
  · intro u h
    obtain ⟨_, _, _, sem', hsem', hv⟩ := inv.pending w (.inr ⟨u, h⟩)
    rw [live, Option.some.injEq] at hsem'
    exact available (hsem' ▸ hv)

omit [DecidableEq Thread] in
/-- The owners of semaphores still have theirs when one of the semaphores is stepped. -/
theorem owner_update (inv : CondInvariant s) {u : Thread} {x w : Nat} {sem : SemState Thread}
    (hu : (s.pc u).waiter = some x) :
    x ∈ s.enqueued ∧ (Function.update s.waiters w (some sem) x).isSome := by
  obtain ⟨hmem, hlive⟩ := inv.owner u x hu
  refine ⟨hmem, ?_⟩
  by_cases hx : x = w
  · simp [hx]
  · rwa [Function.update_of_ne hx]

/-- The part of the invariant that a step of one waiter's semaphore keeps: `t`
stays the owner of `w` and every other semaphore is untouched. -/
theorem waiter_step (inv : CondInvariant s) {w : Nat} {sem : SemState Thread} {pc : CondPc}
    (hwaiter : (s.pc t).waiter = some w) (hpc : pc.waiter = some w)
    (hsig : pc.signalling = none) (hbroad : pc.broadcasting = false)
    (hplace : pc.LockAt (s.lock.pc t) (s.lock.inside t))
    (pending : (w ∈ s.waitQueue ∨ ∃ u, (s.pc u).signalling = some w) →
      pc.passed = false ∧ sem.sem.value = 0)
    (passable : pc.passed = false → w ∉ s.waitQueue → (∀ u, (s.pc u).signalling ≠ some w) →
      sem.sem.value = 1)
    (hold : (s.pc t).signalling = none) (holdb : (s.pc t).broadcasting = false) :
    CondInvariant { s with
      waiters := Function.update s.waiters w (some sem)
      pc := Function.update s.pc t pc } := by
  have waiter := pc_congr (s := s) (t := t) (p := pc) CondPc.waiter (by rw [hpc, hwaiter])
  have signalling := pc_congr (s := s) (t := t) (p := pc) CondPc.signalling (by rw [hsig, hold])
  have broadcasting := pc_congr (s := s) (t := t) (p := pc) CondPc.broadcasting
    (by rw [hbroad, holdb])
  have passed : ∀ u, u ≠ t → (Function.update s.pc t pc u).passed = (s.pc u).passed :=
    fun u hu => by rw [Function.update_of_ne hu]
  exact {
    place := inv.place_update hplace
    order := inv.order
    nodup := inv.nodup
    bound := inv.bound
    owner := by
      intro u x hu
      rw [waiter] at hu
      exact inv.owner_update hu
    unique := by simpa only [waiter] using inv.unique
    signalled := by simpa only [signalling] using inv.signalled
    pending := by
      intro x hx
      simp only [signalling] at hx
      by_cases hxw : x = w
      · subst hxw
        exact ⟨t, by simp [hpc], by simp [pending hx], sem, by simp, (pending hx).2⟩
      · obtain ⟨u, hu, hup, sem', hsem', hv⟩ := inv.pending x hx
        have hne : u ≠ t := by
          rintro rfl
          rw [hwaiter, Option.some.injEq] at hu
          exact hxw hu.symm
        refine ⟨u, by simpa [waiter] using hu, by simpa [passed u hne] using hup, sem', ?_, hv⟩
        simpa [Function.update_of_ne hxw] using hsem'
    passable := by
      intro u x hu hup hq hs
      simp only [waiter] at hu
      simp only [signalling] at hs
      by_cases hut : u = t
      · subst hut
        rw [hwaiter, Option.some.injEq] at hu
        subst hu
        exact ⟨sem, by simp, passable (by simpa using hup) hq hs⟩
      · have hxw : x ≠ w := by
          rintro rfl
          exact hut (inv.unique u t x hu hwaiter)
        rw [passed u hut] at hup
        simpa [Function.update_of_ne hxw] using inv.passable u x hu hup hq hs
    issued := inv.issued
    broadcasting := by simpa only [broadcasting] using inv.broadcasting }

theorem pass (inv : CondInvariant s) {w : Nat} {sem : SemState Thread}
    (hpc : s.pc t = .waitP w ∨ s.pc t = .waitBlocked w) (live : s.waiters w = some sem)
    (available : sem.sem.value ≠ 0) :
    CondInvariant { s with
      waiters := Function.update s.waiters w (some (sem.consumed t))
      pc := Function.update s.pc t (.waitAcquire w) } := by
  have place := inv.place t
  obtain ⟨hq, hs⟩ := inv.not_pending live available
  have absent : ¬ (w ∈ s.waitQueue ∨ ∃ u, (s.pc u).signalling = some w) := by
    rintro (h | ⟨u, h⟩)
    · exact hq h
    · exact hs u h
  rcases hpc with hpc | hpc <;>
  · rw [hpc] at place
    exact inv.waiter_step (by simp [hpc, CondPc.waiter]) rfl rfl rfl place
      (fun h => absurd h absent) (by simp [CondPc.passed]) (by simp [hpc, CondPc.signalling])
      (by simp [hpc, CondPc.broadcasting])

theorem block (inv : CondInvariant s) {w : Nat} {sem : SemState Thread}
    (hpc : s.pc t = .waitP w ∨ s.pc t = .waitBlocked w) (live : s.waiters w = some sem)
    (unavailable : sem.sem.value = 0) :
    CondInvariant { s with
      waiters := Function.update s.waiters w (some (sem.slept t))
      pc := Function.update s.pc t (.waitBlocked w) } := by
  have place := inv.place t
  have blocked : ∀ {hw : (s.pc t).waiter = some w} {hp : (s.pc t).passed = false},
      w ∉ s.waitQueue → (∀ u, (s.pc u).signalling ≠ some w) → (sem.slept t).sem.value = 1 := by
    intro hw hp hq hs
    obtain ⟨sem', hsem', hv⟩ := inv.passable t w hw hp hq hs
    rw [live, Option.some.injEq] at hsem'
    rw [← hsem', unavailable] at hv
    exact absurd hv (by decide)
  rcases hpc with hpc | hpc <;>
  · rw [hpc] at place
    exact inv.waiter_step (by simp [hpc, CondPc.waiter]) rfl rfl rfl place
      (fun _ => ⟨rfl, unavailable⟩)
      (fun _ => @blocked (by simp [hpc, CondPc.waiter]) (by simp [hpc, CondPc.passed]))
      (by simp [hpc, CondPc.signalling]) (by simp [hpc, CondPc.broadcasting])

/-- `delete waiter`: the semaphore was neither in the queue nor about to be
signalled, because its owner had passed `P`. -/
theorem delete (inv : CondInvariant s) {w : Nat} (hpc : s.pc t = .waitDelete w) :
    CondInvariant (s.deleteWaiter t w) := by
  have hwaiter : (s.pc t).waiter = some w := by simp [hpc, CondPc.waiter]
  have signalling := pc_congr (s := s) (t := t) (p := .idle) CondPc.signalling
    (by simp [hpc, CondPc.signalling])
  have broadcasting := pc_congr (s := s) (t := t) (p := .idle) CondPc.broadcasting
    (by simp [hpc, CondPc.broadcasting])
  have waiter : ∀ u x, (Function.update s.pc t .idle u).waiter = some x →
      u ≠ t ∧ (s.pc u).waiter = some x ∧ x ≠ w := by
    intro u x hx
    have hu : u ≠ t := by
      rintro rfl
      simp [CondPc.waiter] at hx
    rw [Function.update_of_ne hu] at hx
    exact ⟨hu, hx, fun e => hu (inv.unique u t w (e ▸ hx) hwaiter)⟩
  exact {
    place := inv.place_update trivial
    order := inv.order
    nodup := inv.nodup
    bound := inv.bound
    owner := by
      intro u x hx
      obtain ⟨_, hx, hne⟩ := waiter u x hx
      simpa [CondState.deleteWaiter, Function.update_of_ne hne] using inv.owner u x hx
    unique := by
      intro u v x hu hv
      exact inv.unique u v x (waiter u x hu).2.1 (waiter v x hv).2.1
    signalled := by
      intro u x hx
      simp only [CondState.deleteWaiter, signalling] at hx
      exact inv.signalled u x hx
    pending := by
      intro x hx
      simp only [CondState.deleteWaiter, signalling] at hx
      obtain ⟨u, hu, hup, sem, hsem, hv⟩ := inv.pending x hx
      have hut : u ≠ t := by
        rintro rfl
        simp [hpc, CondPc.passed] at hup
      have hxw : x ≠ w := fun e => hut (inv.unique u t w (e ▸ hu) hwaiter)
      refine ⟨u, ?_, ?_, sem, ?_, hv⟩
      · simpa [CondState.deleteWaiter, Function.update_of_ne hut] using hu
      · simpa [CondState.deleteWaiter, Function.update_of_ne hut] using hup
      · simpa [CondState.deleteWaiter, Function.update_of_ne hxw] using hsem
    passable := by
      intro u x hx hup hq hs
      obtain ⟨hut, hx, hne⟩ := waiter u x hx
      simp only [CondState.deleteWaiter, Function.update_of_ne hut] at hup
      simp only [CondState.deleteWaiter, signalling] at hs
      simpa [CondState.deleteWaiter, Function.update_of_ne hne] using
        inv.passable u x hx hup hq hs
    issued := inv.issued
    broadcasting := by
      intro u hu
      simp only [CondState.deleteWaiter, broadcasting] at hu
      exact inv.broadcasting u hu }

/-- Recording a call keeps the invariant; the caller was at rest. -/
theorem issue (inv : CondInvariant s) (rest : s.AtRest t) (inside : s.lock.inside t = true)
    {pc : CondPc} (target : pc = .idle ∨ pc = .broadcast) : CondInvariant (s.issue t pc) := by
  have hpc : s.pc t = .idle := rest.1
  have queued : ∀ w ∈ s.waitQueue, s.enqueuedAt w < s.clock := by
    intro w hw
    refine (inv.bound w ?_).2
    rw [inv.order]
    exact List.mem_append_right _ hw
  have place : pc.LockAt (s.lock.pc t) (s.lock.inside t) := by
    rcases target with rfl | rfl
    · trivial
    · exact ⟨rest.2, inside⟩
  apply inv.moved _ _ _ (Nat.le_succ _) (inv.place_update place)
  · intro u hu w hw
    by_cases hut : u = t
    · subst hut
      simpa using queued w hw
    · rw [Function.update_of_ne hut] at hu ⊢
      exact inv.broadcasting u hu w hw
  all_goals rcases target with rfl | rfl <;>
    simp [hpc, CondPc.waiter, CondPc.passed, CondPc.signalling]

/-- `RemoveFront`: the front waiter goes from the queue to the pending `V`. -/
theorem releaseFront (inv : CondInvariant s) {w : Nat} {rest : List Nat} {pc : CondPc}
    (front : s.waitQueue = w :: rest) (recent : s.enqueuedAt w < s.issuedAt t)
    (hplace : pc.LockAt (s.lock.pc t) (s.lock.inside t)) (hsig : pc.signalling = some w)
    (hold : (s.pc t).waiter = none) (hnew : pc.waiter = none)
    (holdsig : (s.pc t).signalling = none)
    (hbroad : pc.broadcasting = true → (s.pc t).broadcasting = true) :
    CondInvariant (s.releaseFront t w rest pc) := by
  have waiter := pc_congr (s := s) (t := t) (p := pc) CondPc.waiter (by rw [hnew, hold])
  have mem : w ∈ s.waitQueue := by simp [front]
  have signalling : ∀ u x, (Function.update s.pc t pc u).signalling = some x ↔
      (u = t ∧ x = w) ∨ (s.pc u).signalling = some x := by
    intro u x
    by_cases hu : u = t
    · subst hu
      simp [hsig, holdsig, eq_comm]
    · simp [hu]
  have notOwner : ∀ u x, (s.pc u).waiter = some x → u ≠ t := by
    rintro u x hu rfl
    rw [hold] at hu
    cases hu
  exact {
    place := inv.place_update hplace
    order := by simp [CondState.releaseFront, inv.order, front]
    nodup := inv.nodup
    bound := inv.bound
    owner := by simpa only [CondState.releaseFront, waiter] using inv.owner
    unique := by simpa only [CondState.releaseFront, waiter] using inv.unique
    signalled := by
      intro u x hx
      simp only [CondState.releaseFront, signalling] at hx
      rcases hx with ⟨_, rfl⟩ | hx
      · simp [CondState.releaseFront]
      · exact List.mem_append_left _ (inv.signalled u x hx)
    pending := by
      intro x hx
      have before : x ∈ s.waitQueue ∨ ∃ u, (s.pc u).signalling = some x := by
        simp only [CondState.releaseFront, signalling] at hx
        rcases hx with hx | ⟨u, ⟨_, rfl⟩ | hx⟩
        · exact .inl (by simp [front, hx])
        · exact .inl mem
        · exact .inr ⟨u, hx⟩
      obtain ⟨u, hu, hup, sem, hsem, hv⟩ := inv.pending x before
      refine ⟨u, by simpa [CondState.releaseFront, waiter] using hu, ?_, sem, hsem, hv⟩
      simpa [CondState.releaseFront, Function.update_of_ne (notOwner u x hu)] using hup
    passable := by
      intro u x hu hup hq hs
      simp only [CondState.releaseFront, waiter] at hu
      simp only [CondState.releaseFront, Function.update_of_ne (notOwner u x hu)] at hup
      have hne : x ≠ w := by
        rintro rfl
        exact hs t (by simp [CondState.releaseFront, hsig])
      refine inv.passable u x hu hup ?_ (fun v hv => ?_)
      · simp only [CondState.releaseFront] at hq
        simp [front, hne, hq]
      · exact hs v ((signalling v x).mpr (.inr hv))
    issued := by
      intro x hx
      simp only [CondState.releaseFront, List.mem_append, List.mem_singleton] at hx ⊢
      by_cases hxw : x = w
      · subst hxw
        exact ⟨t, s.issuedAt t, by simp, recent⟩
      · rw [Function.update_of_ne hxw]
        exact inv.issued x (hx.resolve_right hxw)
    broadcasting := by
      intro u hu x hx
      have before : (s.pc u).broadcasting = true := by
        by_cases hut : u = t
        · subst hut
          exact hbroad (by simpa [CondState.releaseFront] using hu)
        · simpa [CondState.releaseFront, Function.update_of_ne hut] using hu
      exact inv.broadcasting u before x (by simp only [front]; exact List.mem_cons_of_mem _ hx) }

theorem broadcastDone (inv : CondInvariant s) (hpc : s.pc t = .broadcast)
    (empty : s.waitQueue = []) :
    CondInvariant { s with pc := Function.update s.pc t .idle } := by
  have place : CondPc.idle.LockAt (s.lock.pc t) (s.lock.inside t) := trivial
  apply inv.moved _ _ _ le_rfl (inv.place_update place)
  · intro _ _ w hw
    rw [empty] at hw
    cases hw
  all_goals simp [hpc, CondPc.waiter, CondPc.passed, CondPc.signalling]

omit [DecidableEq Thread] in
/-- A semaphore that is about to be signalled was taken off the queue. -/
theorem not_queued (inv : CondInvariant s) {w : Nat} (signalling : (s.pc t).signalling = some w) :
    w ∉ s.waitQueue := by
  have distinct := inv.nodup
  rw [inv.order, List.nodup_append] at distinct
  intro queued
  exact distinct.2.2 w (inv.signalled t w signalling) w queued rfl

/-- `waiter->V()`: the unit appears, and only for the semaphore just taken off. -/
theorem v (inv : CondInvariant s) {w : Nat} {sem : SemState Thread} {pc : CondPc}
    (hplace : s.pc t = .signalV w ∧ pc = .idle ∨ s.pc t = .broadcastV w ∧ pc = .broadcast)
    (live : s.waiters w = some sem) (alone : ∀ u, u ≠ t → (s.pc u).signalling = none) :
    CondInvariant { s with
      waiters := Function.update s.waiters w (some sem.signal)
      pc := Function.update s.pc t pc } := by
  have place := inv.place t
  have hwaiter : pc.waiter = (s.pc t).waiter := by
    rcases hplace with ⟨h, rfl⟩ | ⟨h, rfl⟩ <;> simp [h, CondPc.waiter]
  have hpassed : pc.passed = (s.pc t).passed := by
    rcases hplace with ⟨h, rfl⟩ | ⟨h, rfl⟩ <;> simp [h, CondPc.passed]
  have hbroad : pc.broadcasting = (s.pc t).broadcasting := by
    rcases hplace with ⟨h, rfl⟩ | ⟨h, rfl⟩ <;> simp [h, CondPc.broadcasting]
  have hsig : (s.pc t).signalling = some w := by
    rcases hplace with ⟨h, _⟩ | ⟨h, _⟩ <;> simp [h, CondPc.signalling]
  have hlock : pc.LockAt (s.lock.pc t) (s.lock.inside t) := by
    rcases hplace with ⟨h, rfl⟩ | ⟨h, rfl⟩
    · trivial
    · rwa [h] at place
  have waiter := pc_congr (s := s) (t := t) (p := pc) CondPc.waiter hwaiter
  have passed := pc_congr (s := s) (t := t) (p := pc) CondPc.passed hpassed
  have broadcasting := pc_congr (s := s) (t := t) (p := pc) CondPc.broadcasting hbroad
  have signalling : ∀ u, (Function.update s.pc t pc u).signalling = none := by
    intro u
    by_cases hu : u = t
    · subst hu
      rcases hplace with ⟨_, rfl⟩ | ⟨_, rfl⟩ <;> simp [CondPc.signalling]
    · rw [Function.update_of_ne hu]
      exact alone u hu
  have hnotq : w ∉ s.waitQueue := inv.not_queued hsig
  obtain ⟨_, _, _, sem', hsem', hzero⟩ := inv.pending w (.inr ⟨t, hsig⟩)
  rw [live, Option.some.injEq] at hsem'
  subst hsem'
  exact {
    place := inv.place_update hlock
    order := inv.order
    nodup := inv.nodup
    bound := inv.bound
    owner := by
      intro u x hu
      rw [waiter] at hu
      exact inv.owner_update hu
    unique := by simpa only [waiter] using inv.unique
    signalled := by
      intro u x hx
      simp [signalling] at hx
    pending := by
      intro x hx
      simp only [signalling, reduceCtorEq, exists_false, or_false] at hx
      obtain ⟨u, hu, hup, sem', hsem', hv⟩ := inv.pending x (.inl hx)
      have hxw : x ≠ w := fun e => hnotq (e ▸ hx)
      refine ⟨u, by simpa [waiter] using hu, by simpa [passed] using hup, sem', ?_, hv⟩
      simpa [Function.update_of_ne hxw] using hsem'
    passable := by
      intro u x hu hup hq _
      simp only [waiter, passed] at hu hup
      by_cases hxw : x = w
      · subst hxw
        exact ⟨sem.signal, by simp, by simp [hzero]⟩
      · have hs : ∀ y, (s.pc y).signalling ≠ some x := by
          intro y hy
          by_cases hyt : y = t
          · subst hyt
            rw [hsig, Option.some.injEq] at hy
            exact hxw hy.symm
          · rw [alone y hyt] at hy
            cases hy
        simpa [Function.update_of_ne hxw] using inv.passable u x hu hup hq hs
    issued := inv.issued
    broadcasting := by simpa only [broadcasting] using inv.broadcasting }

omit [DecidableEq Thread] in
/-- The code between a call's assertion and its last `V` runs with the lock held. -/
theorem inside_of_signalling (inv : CondInvariant s) {w : Nat}
    (h : (s.pc t).signalling = some w) : s.lock.inside t = true := by
  have place := inv.place t
  generalize s.pc t = pc at h place
  cases pc <;> simp_all [CondPc.signalling, CondPc.LockAt]

omit [DecidableEq Thread] in
theorem inside_of_broadcasting (inv : CondInvariant s)
    (h : (s.pc t).broadcasting = true) : s.lock.inside t = true := by
  have place := inv.place t
  generalize s.pc t = pc at h place
  cases pc <;> simp_all [CondPc.broadcasting, CondPc.LockAt]

/-- Mutual exclusion is what keeps the queue and the pending `V` to one thread. -/
theorem effect (inv : CondInvariant s) (linv : LockInvariant s.lock)
    {e : CondEvent Thread} (h : s.Effect e s') :
    CondInvariant s' := by
  have same : ∀ {u x}, s.lock.inside u = true → s.lock.inside x = true → u = x :=
    fun hu hx => linv.exclusive _ _ (.inr (.inl hu)) (.inr (.inl hx))
  cases h with
  | lock t e after pc _ turn locked => exact inv.lock turn locked
  | enqueue t rest held =>
    have inside := (linv.holder t).mp held
    refine inv.enqueue rest inside (fun u => ?_)
    by_contra hu
    rw [Bool.not_eq_false] at hu
    have hut := same (inv.inside_of_broadcasting hu) inside
    subst hut
    simp [rest.1, CondPc.broadcasting] at hu
  | pass t w sem pc live available => exact inv.pass pc live available
  | block t w sem pc live unavailable => exact inv.block pc live unavailable
  | delete t w pc => exact inv.delete pc
  | issue t pc rest held target =>
    exact inv.issue rest ((linv.holder t).mp held) (target.imp (And.left ∘ And.right) And.right)
  | signal t w rest atRest held front =>
    have inside := (linv.holder t).mp held
    have issued := inv.issue atRest inside (.inl rfl)
    have mem : w ∈ s.enqueued := by
      rw [inv.order, front]
      simp
    refine issued.releaseFront front ?_ ⟨atRest.2, inside⟩ rfl ?_ rfl ?_ ?_
    · simpa [CondState.issue] using (inv.bound w mem).2
    · simp [CondState.issue, CondPc.waiter]
    · simp [CondState.issue, CondPc.signalling]
    · simp [CondPc.broadcasting]
  | broadcast t w rest pc held front =>
    have place := inv.place t
    rw [pc] at place
    refine inv.releaseFront front ?_ place rfl ?_ rfl ?_ ?_
    · exact inv.broadcasting t (by simp [pc, CondPc.broadcasting]) w (by simp [front])
    · simp [pc, CondPc.waiter]
    · simp [pc, CondPc.signalling]
    · simp [pc, CondPc.broadcasting]
  | broadcastDone t pc empty => exact inv.broadcastDone pc empty
  | v t w sem pc place live =>
    have hsig : (s.pc t).signalling = some w := by
      rcases place with ⟨h, _⟩ | ⟨h, _⟩ <;> simp [h, CondPc.signalling]
    refine inv.v place live (fun u hu => ?_)
    cases husig : (s.pc u).signalling with
    | none => rfl
    | some x =>
      exact absurd (same (inv.inside_of_signalling husig) (inv.inside_of_signalling hsig)) hu

theorem of_reachable [Fintype Thread] (h : (condMachine Thread).Reachable s) :
    CondInvariant s := by
  induction h with
  | init h => exact h ▸ initial
  | step before _ h ih =>
    exact ih.effect (.of_reachable ((condLock Thread).reachable before)) (CondState.next_effect h)

end CondInvariant

namespace CondState

/-- The next pass of `waiter->P()` on `w` would return. -/
def CanPass (s : CondState Thread) (w : Nat) : Prop :=
  ∃ sem, s.waiters w = some sem ∧ sem.sem.value ≠ 0

/-- The waiter semaphore on which the next step of `t` performs `P` or `V`. -/
def touches (s : CondState Thread) (t : Thread) : Option Nat :=
  match s.pc t with
  | .waitP w | .waitBlocked w | .signalV w | .broadcastV w => some w
  | _ => none

/-- How many steps the `Broadcast` of `t` still has to take. -/
def broadcastLeft (s : CondState Thread) (t : Thread) : Nat :=
  match s.pc t with
  | .broadcast => 2 * s.waitQueue.length + 1
  | .broadcastV _ => 2 * s.waitQueue.length + 2
  | _ => 0

end CondState

namespace CondInvariant

variable {s s' : CondState Thread} {t : Thread}

omit [DecidableEq Thread] in
theorem touches_live (inv : CondInvariant s) {w : Nat} (h : s.touches t = some w) :
    (s.waiters w).isSome := by
  simp only [CondState.touches] at h
  cases hpc : s.pc t with
  | waitP x | waitBlocked x =>
    simp only [hpc, Option.some.injEq] at h
    subst h
    exact (inv.owner t x (by simp [hpc, CondPc.waiter])).2
  | signalV x | broadcastV x =>
    simp only [hpc, Option.some.injEq] at h
    subst h
    obtain ⟨_, _, _, sem, hsem, _⟩ := inv.pending x (.inr ⟨t, by simp [hpc, CondPc.signalling]⟩)
    simp [hsem]
  | idle | waitRelease | waitUnlock | waitAcquire | waitLock | waitDelete | broadcast =>
    simp [hpc] at h

omit [DecidableEq Thread] in
theorem pending_asleep (inv : CondInvariant s) {w : Nat}
    (h : w ∈ s.waitQueue ∨ ∃ u, (s.pc u).signalling = some w) :
    ¬ s.CanPass w ∧ ∃ t, (s.pc t).waiter = some w ∧ (s.pc t).passed = false := by
  obtain ⟨t, hw, hp, sem, hsem, hv⟩ := inv.pending w h
  refine ⟨?_, t, hw, hp⟩
  rintro ⟨sem', hsem', hv'⟩
  rw [hsem, Option.some.injEq] at hsem'
  exact hv' (hsem' ▸ hv)

/-- The `V` of a `Signal` finds its semaphore, and lets exactly its owner go. -/
theorem signalling_step (inv : CondInvariant s) {w : Nat}
    (h : (s.pc t).signalling = some w) :
    ∃ s', CondState.next (.step t) s = some s' ∧ s'.CanPass w ∧
      ∀ x, x ≠ w → s'.waiters x = s.waiters x := by
  obtain ⟨_, _, _, sem, hsem, hv⟩ := inv.pending w (.inr ⟨t, h⟩)
  have granted : ∀ pc, ∃ s', s.waiterV t w pc = some s' ∧ s'.CanPass w ∧
      ∀ x, x ≠ w → s'.waiters x = s.waiters x := by
    intro pc
    refine ⟨_, CondState.waiterV_live hsem pc, ⟨sem.signal, by simp, by simp [hv]⟩, ?_⟩
    intro x hx
    simp [Function.update_of_ne hx]
  simp only [CondState.next, CondState.stepThread]
  cases hpc : s.pc t with
  | signalV x =>
    simp only [hpc, CondPc.signalling, Option.some.injEq] at h
    subst h
    exact granted .idle
  | broadcastV x =>
    simp only [hpc, CondPc.signalling, Option.some.injEq] at h
    subst h
    exact granted .broadcast
  | idle | waitRelease | waitUnlock | waitP | waitBlocked | waitAcquire | waitLock | waitDelete
  | broadcast => simp [hpc, CondPc.signalling] at h

/-- A broadcaster is never stuck and each of its steps brings its end nearer. -/
theorem broadcast_step (inv : CondInvariant s) (linv : LockInvariant s.lock)
    (h : (s.pc t).broadcasting = true) :
    ∃ s', CondState.next (.step t) s = some s' ∧ s'.broadcastLeft t + 1 = s.broadcastLeft t := by
  have held : s.lock.isHeldByCurrentThread t = true :=
    LockState.isHeld_iff.mpr ((linv.holder t).mpr (inv.inside_of_broadcasting h))
  simp only [CondState.next, CondState.stepThread, CondState.broadcastLeft]
  cases hpc : s.pc t with
  | broadcast =>
    cases hq : s.waitQueue with
    | nil => exact ⟨_, rfl, by simp⟩
    | cons w rest =>
      refine ⟨s.releaseFront t w rest (.broadcastV w), ?_, ?_⟩
      · simp [CondState.signalBody, held, hq, removeFront]
      · simp only [CondState.releaseFront, Function.update_self, List.length_cons]
        omega
  | broadcastV w =>
    obtain ⟨_, _, _, sem, hsem, _⟩ := inv.pending w (.inr ⟨t, by simp [hpc, CondPc.signalling]⟩)
    exact ⟨_, CondState.waiterV_live hsem .broadcast, by simp⟩
  | idle | waitRelease | waitUnlock | waitP | waitBlocked | waitAcquire | waitLock | waitDelete
  | signalV => simp [hpc, CondPc.broadcasting] at h

/-- Nobody can join the queue while a broadcaster empties it: it has the lock. -/
theorem broadcastLeft_le (inv : CondInvariant s) (linv : LockInvariant s.lock)
    (h : (s.pc t).broadcasting = true) {e : CondEvent Thread} (effect : s.Effect e s') :
    s'.broadcastLeft t ≤ s.broadcastLeft t := by
  have inside := inv.inside_of_broadcasting h
  have alone : ∀ u, s.lock.inside u = true → u = t :=
    fun u hu => linv.exclusive u t (.inr (.inl hu)) (.inr (.inl inside))
  have moved : ∀ {u pc}, (s.pc u).broadcasting = false →
      Function.update s.pc u pc t = s.pc t := by
    intro u pc hu
    have hut : t ≠ u := by
      rintro rfl
      rw [hu] at h
      cases h
    rw [Function.update_of_ne hut]
  have atRest : ∀ u, s.AtRest u → s.lock.lockHolder = some u → False := by
    intro u rest held
    have hut := alone u ((linv.holder u).mp held)
    subst hut
    simp [rest.1, CondPc.broadcasting] at h
  cases effect with
  | lock u _ after pc _ turn _ =>
    refine le_of_eq ?_
    have hu : (s.pc u).broadcasting = false := by
      generalize s.pc u = place at turn
      cases turn <;> rfl
    simp only [CondState.broadcastLeft, moved hu]
  | pass u w sem pc _ _ | block u w sem pc _ _ =>
    refine le_of_eq ?_
    have hu : (s.pc u).broadcasting = false := by
      rcases pc with pc | pc <;> simp [pc, CondPc.broadcasting]
    simp only [CondState.broadcastLeft, moved hu]
  | delete u w pc =>
    refine le_of_eq ?_
    have hu : (s.pc u).broadcasting = false := by simp [pc, CondPc.broadcasting]
    simp only [CondState.broadcastLeft, CondState.deleteWaiter, moved hu]
  | enqueue u rest held => exact (atRest u rest held).elim
  | issue u pc rest held _ => exact (atRest u rest held).elim
  | signal u w rest atRest' held _ => exact (atRest u atRest' held).elim
  | broadcast u w rest pc held front =>
    have hut := alone u ((linv.holder u).mp held)
    subst hut
    simp only [CondState.broadcastLeft, CondState.releaseFront, Function.update_self, pc, front,
      List.length_cons]
    omega
  | broadcastDone u pc empty =>
    have place := inv.place u
    rw [pc] at place
    have hut := alone u place.2
    subst hut
    simp [CondState.broadcastLeft]
  | v u w sem pc place _ =>
    have hsig : (s.pc u).signalling = some w := by
      rcases place with ⟨h, _⟩ | ⟨h, _⟩ <;> simp [h, CondPc.signalling]
    have hut := alone u (inv.inside_of_signalling hsig)
    subst hut
    rcases place with ⟨h, rfl⟩ | ⟨h, rfl⟩ <;> simp [CondState.broadcastLeft, h]

omit [DecidableEq Thread] in
/-- With an empty queue and no `V` outstanding, every waiter is free to go. -/
theorem released_of_empty (inv : CondInvariant s) (empty : s.waitQueue = [])
    (idle : ∀ u, (s.pc u).signalling = none) {u : Thread} {w : Nat}
    (hw : (s.pc u).waiter = some w) : (s.pc u).passed = true ∨ s.CanPass w := by
  cases hp : (s.pc u).passed with
  | true => exact .inl rfl
  | false =>
    obtain ⟨sem, hsem, hv⟩ := inv.passable u w hw hp (by simp [empty]) (by simp [idle])
    exact .inr ⟨sem, hsem, by simp [hv]⟩

/-- `Broadcast` returns only from its loop test, with the queue empty. -/
theorem broadcast_end (inv : CondInvariant s) (linv : LockInvariant s.lock)
    (h : (s.pc t).broadcasting = true) (step : CondState.next (.step t) s = some s')
    (left : s'.broadcastLeft t = 0) :
    s'.waitQueue = [] ∧ s'.released = s'.enqueued ∧
      ∀ u w, (s'.pc u).waiter = some w → (s'.pc u).passed = true ∨ s'.CanPass w := by
  obtain ⟨after, hafter, hleft⟩ := inv.broadcast_step linv h
  rw [step, Option.some.injEq] at hafter
  subst hafter
  have inv' := inv.effect linv (CondState.next_effect step)
  have inside := inv.inside_of_broadcasting h
  have one : s.broadcastLeft t = 1 := by omega
  have hpc : s.pc t = .broadcast ∧ s.waitQueue = [] := by
    unfold CondState.broadcastLeft at one
    split at one
    next hpc => exact ⟨hpc, List.eq_nil_of_length_eq_zero (by omega)⟩
    · omega
    · omega
  have hs' : s' = { s with pc := Function.update s.pc t .idle } := by
    simpa [CondState.next, CondState.stepThread, hpc.1, hpc.2, eq_comm] using step
  have empty : s'.waitQueue = [] := by rw [hs']; exact hpc.2
  have idle : ∀ u, (s'.pc u).signalling = none := by
    intro u
    rw [hs']
    by_cases hu : u = t
    · simp [hu, CondPc.signalling]
    · simp only [Function.update_of_ne hu]
      cases hsig : (s.pc u).signalling with
      | none => rfl
      | some w =>
        have hin := inv.inside_of_signalling hsig
        exact absurd (linv.exclusive u t (.inr (.inl hin)) (.inr (.inl inside))) hu
  exact ⟨empty, by simpa [empty] using inv'.order.symm,
    fun u w hw => inv'.released_of_empty empty idle hw⟩

/-- The queue is sorted by the time of the enqueue. -/
theorem sorted (inv : CondInvariant s)
    (before : s.enqueued.Pairwise fun x y => s.enqueuedAt x < s.enqueuedAt y)
    {e : CondEvent Thread} (effect : s.Effect e s') :
    s'.enqueued.Pairwise fun x y => s'.enqueuedAt x < s'.enqueuedAt y := by
  cases effect with
  | enqueue t _ _ =>
    have stamp : ∀ w ∈ s.enqueued,
        Function.update s.enqueuedAt s.nextWaiter s.clock w = s.enqueuedAt w := by
      intro w hw
      have := (inv.bound w hw).1
      exact Function.update_of_ne (by omega) _ _
    simp only [CondState.enqueue]
    rw [List.pairwise_append]
    refine ⟨?_, List.pairwise_singleton _ _, ?_⟩
    · refine before.imp_of_mem ?_
      intro x y hx hy hxy
      rwa [stamp x hx, stamp y hy]
    · intro x hx y hy
      rw [List.mem_singleton] at hy
      rw [hy, stamp x hx, Function.update_self]
      exact (inv.bound x hx).2
  | lock | pass | block | delete | issue | signal | broadcast | broadcastDone | v => exact before

theorem sorted_of_reachable [Fintype Thread] (h : (condMachine Thread).Reachable s) :
    s.enqueued.Pairwise fun x y => s.enqueuedAt x < s.enqueuedAt y := by
  induction h with
  | init h =>
    subst h
    exact List.Pairwise.nil
  | step before _ h ih => exact (of_reachable before).sorted ih (CondState.next_effect h)

omit [DecidableEq Thread] in
theorem passed_released (inv : CondInvariant s) {w : Nat} (hw : (s.pc t).waiter = some w)
    (hp : (s.pc t).passed = true) : w ∈ s.released := by
  have mem := (inv.owner t w hw).1
  rw [inv.order, List.mem_append] at mem
  refine mem.resolve_right (fun hq => ?_)
  obtain ⟨u, hu, hup, _⟩ := inv.pending w (.inl hq)
  rw [inv.unique u t w hu hw, hp] at hup
  cases hup

end CondInvariant

/-- `Signal` on a non-empty queue: up to its `V` it has moved the front waiter,
the one enqueued first, from the queue to the released ones, and no other. -/
theorem signal_front {s s' : CondState Thread} {t : Thread} {w : Nat} {rest : List Nat}
    (front : s.waitQueue = w :: rest) (h : CondState.next (.signal t) s = some s') :
    s'.waitQueue = rest ∧ s'.released = s.released ++ [w] ∧ s'.pc t = .signalV w ∧
      s'.waiters = s.waiters := by
  simp only [CondState.next, CondState.signalBody, CondState.issue, front, removeFront] at h
  split at h
  · split at h
    · cases h
      simp [CondState.releaseFront]
    · cases h
  · cases h

/-- Every interleaving of `Wait`, `Signal` and `Broadcast` under one lock.

A waiter in the queue, or taken off it with the `V` outstanding, is still inside
`P` and cannot pass. `Signal` takes off the waiter enqueued first and its `V`
lets that one go and touches no other. `Broadcast` can always go on, comes to its
end, and ends with an empty queue and every waiter free to go. A `Wait` about to
return holds the lock and was released by a call issued after its enqueue. The
semaphore of the next `P` or `V` of any thread exists. -/
theorem condition_safe [Fintype Thread] (s : CondState Thread)
    (h : (condMachine Thread).Reachable s) :
    (s.enqueued = s.released ++ s.waitQueue ∧ s.enqueued.Nodup ∧
      s.enqueued.Pairwise fun x y => s.enqueuedAt x < s.enqueuedAt y) ∧
    (∀ w, (w ∈ s.waitQueue ∨ ∃ u, (s.pc u).signalling = some w) →
      ¬ s.CanPass w ∧ ∃ t, (s.pc t).waiter = some w ∧ (s.pc t).passed = false) ∧
    (∀ t w rest s', s.waitQueue = w :: rest → CondState.next (.signal t) s = some s' →
      s'.waitQueue = rest ∧ s'.released = s.released ++ [w] ∧ s'.pc t = .signalV w ∧
        s'.waiters = s.waiters) ∧
    (∀ t w, (s.pc t).signalling = some w →
      ∃ s', CondState.next (.step t) s = some s' ∧ s'.CanPass w ∧
        ∀ x, x ≠ w → s'.waiters x = s.waiters x) ∧
    (∀ t, (s.pc t).broadcasting = true →
      (∃ s', CondState.next (.step t) s = some s' ∧
        s'.broadcastLeft t + 1 = s.broadcastLeft t) ∧
      (∀ e s', CondState.next e s = some s' → s'.broadcastLeft t ≤ s.broadcastLeft t)) ∧
    (∀ t s', (s.pc t).broadcasting = true → CondState.next (.step t) s = some s' →
      s'.broadcastLeft t = 0 → s'.waitQueue = [] ∧ s'.released = s'.enqueued ∧
        ∀ u w, (s'.pc u).waiter = some w → (s'.pc u).passed = true ∨ s'.CanPass w) ∧
    (∀ t w, s.pc t = .waitDelete w → s.lock.isHeldByCurrentThread t = true ∧
      ∃ u i, s.releasedBy w = some (u, i) ∧ s.enqueuedAt w < i) ∧
    (∀ t w, s.touches t = some w → (s.waiters w).isSome) := by
  have inv := CondInvariant.of_reachable h
  have linv := LockInvariant.of_reachable ((condLock Thread).reachable h)
  refine ⟨⟨inv.order, inv.nodup, CondInvariant.sorted_of_reachable h⟩,
    fun w hw => inv.pending_asleep hw, fun t w rest s' front hs => signal_front front hs,
    fun t w hs => inv.signalling_step hs, fun t hb => ⟨inv.broadcast_step linv hb, ?_⟩, ?_, ?_,
    fun t w hw => inv.touches_live hw⟩
  · intro e s' hs
    exact inv.broadcastLeft_le linv hb (CondState.next_effect hs)
  · intro t s' hb hs hleft
    exact inv.broadcast_end linv hb hs hleft
  · intro t w hpc
    have place := inv.place t
    rw [hpc] at place
    refine ⟨LockState.isHeld_iff.mpr ((linv.holder t).mpr place.2), inv.issued w ?_⟩
    exact inv.passed_released (t := t) (by simp [hpc, CondPc.waiter]) (by simp [hpc, CondPc.passed])

end Machine

/-- Thread 1 waits, thread 0 takes the lock and signals. -/
def signalledRun : List (CondEvent (Fin 2)) :=
  [.acquire 1, .step 1, .wait 1, .step 1, .step 1, .step 1, .acquire 0, .step 0, .signal 0]

/-- In the run above the waiter has left the queue and is still asleep, its
semaphore exists, and the outstanding `V` of thread 0 will let it pass. -/
theorem condition_safe_signalled :
    ∃ s, (condMachine (Fin 2)).run signalledRun .initial = some s ∧
      s.released = [0] ∧ (s.waiters 0).isSome ∧ ¬ s.CanPass 0 ∧
      ∃ s', CondState.next (.step 0) s = some s' ∧ s'.CanPass 0 := by
  have replay : ((condMachine (Fin 2)).run signalledRun .initial).map
      (fun s => (s.released, s.pc 0)) = some ([0], .signalV 0) := by decide +kernel
  obtain ⟨s, hs, hview⟩ := Option.map_eq_some_iff.mp replay
  obtain ⟨released, pc⟩ := Prod.mk.inj hview
  have reachable := (Machine.Reachable.init (M := condMachine (Fin 2)) rfl).run signalledRun hs
  obtain ⟨_, asleep, _, granted, _, _, _, live⟩ := condition_safe s reachable
  have signalling : (s.pc 0).signalling = some 0 := by simp [pc, CondPc.signalling]
  obtain ⟨s', step, free, _⟩ := granted 0 0 signalling
  exact ⟨s, hs, released, live 0 0 (by simp [CondState.touches, pc]),
    (asleep 0 (.inr ⟨0, signalling⟩)).1, s', step, free⟩

end NachOS.Threads
