import NachOS.Lib.Machine
import NachOS.Lib.Memory
import NachOS.Library.List

/-!
# Semaphores (threads/synch.cc:75-117)

`Semaphore::P` runs its loop with interrupts off: each pass tests `value` and
either consumes a unit and returns, or appends the thread to `queue` and calls
`Thread::Sleep`, which gives up the processor until a `V` has put the thread on
the ready list again; the loop then tests once more. So the atomic steps of any
interleaving are: the first test of a `P`, the new test of a woken waiter, and a
whole `V`, which a thread or an interrupt handler may perform.

`value` is an `int`: a `V` that finds it at its largest value makes it negative,
and nothing in the code stands against that. The queue does not depend on the
value; what the value counts holds of the runs without such a `V`.
-/
namespace NachOS.Threads
open NachOS.Lib NachOS.Library

structure Semaphore (Thread : Type*) where
  value : Int
  queue : List Thread
  deriving DecidableEq

namespace Semaphore

variable {Thread : Type*}

def new (initialValue : Int) : Semaphore Thread := ⟨initialValue, []⟩

/-- One pass of the loop in `Semaphore::P`: `true` when a unit was consumed and
`P` returns, `false` when the thread went to sleep on the queue. -/
def P [DecidableEq Thread] (s : Semaphore Thread) (currentThread : Thread) :
    Option (Bool × Semaphore Thread) :=
  if s.value = 0 then
    (append s.queue currentThread).map fun queue => (false, { s with queue })
  else some (true, { s with value := int32 (s.value - 1) })

/-- `Semaphore::V`, with the thread it hands to `Scheduler::ReadyToRun`. -/
def V (s : Semaphore Thread) : Option Thread × Semaphore Thread :=
  match removeFront s.queue with
  | none => (none, { s with value := int32 (s.value + 1) })
  | some (thread, queue) => (some thread, { value := int32 (s.value + 1), queue })

end Semaphore

/-- A semaphore used for exclusion: its one unit is there, or one thread has it. -/
def OneUnit {Thread : Type*} (value : Int) (has : Thread → Prop) : Prop :=
  (value = 1 ∧ ∀ t, ¬ has t) ∨ (value = 0 ∧ ∃ t, has t ∧ ∀ u, has u → u = t)

namespace OneUnit

variable {Thread : Type*} {value : Int} {has has' : Thread → Prop} {t : Thread}

theorem congr (h : OneUnit value has) (same : ∀ u, has' u ↔ has u) : OneUnit value has' := by
  simpa only [OneUnit, same] using h

theorem only (h : OneUnit value has) {u : Thread} (ht : has t) (hu : has u) : u = t := by
  rcases h with ⟨_, none⟩ | ⟨_, w, _, only⟩
  · exact absurd ht (none t)
  · exact (only u hu).trans (only t ht).symm

theorem taken (h : OneUnit value has) (available : value ≠ 0)
    (after : ∀ u, has' u ↔ has u ∨ u = t) : OneUnit (int32 (value - 1)) has' := by
  rcases h with ⟨one, none⟩ | ⟨zero, _⟩
  · refine .inr ⟨by simp [one], t, (after t).mpr (.inr rfl), fun u hu => ?_⟩
    exact ((after u).mp hu).resolve_left (none u)
  · exact absurd zero available

theorem value_eq_zero (h : OneUnit value has) (ht : has t) : value = 0 := by
  rcases h with ⟨_, none⟩ | ⟨zero, _⟩
  · exact absurd ht (none t)
  · exact zero

/-- When the thread that has the unit no longer counts, the unit is gone. -/
theorem used (h : OneUnit value has) (ht : has t) (after : ∀ u, has' u → has u ∧ u ≠ t) :
    value = 0 ∧ ∀ u, ¬ has' u := by
  refine ⟨h.value_eq_zero ht, fun u hu => ?_⟩
  obtain ⟨hu, hne⟩ := after u hu
  exact hne (h.only ht hu)

theorem signalled (zero : value = 0) (none : ∀ u, ¬ has u) : OneUnit (int32 (value + 1)) has :=
  .inl ⟨by simp [zero], none⟩

end OneUnit

/-- Where a thread stands with respect to one semaphore. -/
inductive Phase where
  /-- Not inside `P`. -/
  | running
  /-- Asleep on the queue, inside `P`. -/
  | queued
  /-- Removed from the queue by a `V`, not yet tested `value` again. -/
  | woken
  deriving DecidableEq

/-- A semaphore with the positions of the threads that use it, and the number of
`P` and `V` calls completed so far. -/
structure SemState (Thread : Type*) where
  sem : Semaphore Thread
  phase : Thread → Phase
  completedP : Nat
  completedV : Nat

inductive SemEvent (Thread : Type*) where
  | p (t : Thread)
  | retest (t : Thread)
  | v

section Machine

variable {Thread : Type*} [DecidableEq Thread]

namespace SemState

def initial (initialValue : Int) : SemState Thread where
  sem := .new initialValue
  phase := fun _ => .running
  completedP := 0
  completedV := 0

def consumed (s : SemState Thread) (t : Thread) : SemState Thread where
  sem := { s.sem with value := int32 (s.sem.value - 1) }
  phase := Function.update s.phase t .running
  completedP := s.completedP + 1
  completedV := s.completedV

def slept (s : SemState Thread) (t : Thread) : SemState Thread :=
  { s with
    sem := { s.sem with queue := s.sem.queue ++ [t] }
    phase := Function.update s.phase t .queued }

/-- The test that `P` makes on entry and after every wakeup. -/
def test (s : SemState Thread) (t : Thread) : Option (SemState Thread) :=
  match s.sem.P t with
  | none => none
  | some (true, sem) =>
    some { s with sem, phase := Function.update s.phase t .running, completedP := s.completedP + 1 }
  | some (false, sem) => some { s with sem, phase := Function.update s.phase t .queued }

def signal (s : SemState Thread) : SemState Thread :=
  match s.sem.V with
  | (none, sem) => { s with sem, completedV := s.completedV + 1 }
  | (some t, sem) =>
    { s with sem, phase := Function.update s.phase t .woken, completedV := s.completedV + 1 }

def next : SemEvent Thread → SemState Thread → Option (SemState Thread)
  | .p t, s => if s.phase t = .running then s.test t else none
  | .retest t, s => if s.phase t = .woken then s.test t else none
  | .v, s => some s.signal

/-- The next pass of a `P` by `t`: the first one, or the one after a wakeup. -/
def pass (s : SemState Thread) (t : Thread) : Option (SemState Thread) :=
  if s.phase t = .running then next (.p t) s else next (.retest t) s

end SemState

/-- A `V` is called only while `value` is below the largest `int`. -/
def SemEvent.Fits : SemEvent Thread → SemState Thread → Prop
  | .v, s => s.sem.value < 2147483647
  | .p _, _ | .retest _, _ => True

instance (e : SemEvent Thread) (s : SemState Thread) : Decidable (e.Fits s) :=
  match e with
  | .v => inferInstanceAs (Decidable (s.sem.value < 2147483647))
  | .p _ => inferInstanceAs (Decidable True)
  | .retest _ => inferInstanceAs (Decidable True)

omit [DecidableEq Thread] in
theorem SemEvent.fits_of_lt {s : SemState Thread} (room : s.sem.value < 2147483647)
    (e : SemEvent Thread) : e.Fits s := by
  cases e with
  | v => exact room
  | p t | retest t => trivial

/-- All interleavings of `P` and `V` on a semaphore created with `initialValue`. -/
def semMachine (Thread : Type*) [DecidableEq Thread] (initialValue : Int) :
    Machine (SemState Thread) (SemEvent Thread) where
  init s := s = .initial initialValue
  next := SemState.next

namespace SemState

variable {s s' : SemState Thread} {t : Thread}

/-- The two outcomes of a test. -/
theorem test_cases (h : s.test t = some s') :
    (s.sem.value ≠ 0 ∧ s' = s.consumed t) ∨
    (s.sem.value = 0 ∧ t ∉ s.sem.queue ∧ s' = s.slept t) := by
  by_cases hv : s.sem.value = 0
  · by_cases hq : t ∈ s.sem.queue
    · simp [test, Semaphore.P, hv, append, hq] at h
    · simp only [test, Semaphore.P, hv, if_true, append, hq, if_false, Option.map_some,
        Option.some.injEq] at h
      refine .inr ⟨hv, hq, ?_⟩
      rw [← h]
      simp [slept, hv]
  · simp only [test, Semaphore.P, hv, if_false, Option.some.injEq] at h
    exact .inl ⟨hv, h.symm⟩

theorem pass_next (h : s.pass t = some s') : ∃ e, next e s = some s' := by
  unfold pass at h
  split at h
  · exact ⟨_, h⟩
  · exact ⟨_, h⟩

theorem pass_cases (h : s.pass t = some s') :
    (s.sem.value ≠ 0 ∧ s' = s.consumed t) ∨ (s.sem.value = 0 ∧ s' = s.slept t) := by
  have test : s.test t = some s' := by
    by_cases running : s.phase t = .running
    · simpa only [pass, running, if_true, next] using h
    · simp only [pass, running, if_false, next] at h
      exact (Option.ite_none_right_eq_some.mp h).2
  rcases test_cases test with ⟨value, rfl⟩ | ⟨value, _, rfl⟩
  · exact .inl ⟨value, rfl⟩
  · exact .inr ⟨value, rfl⟩

/-- `P` returns to a thread that is awake and finds a unit. -/
theorem pass_available (awake : s.phase t ≠ .queued) (available : s.sem.value ≠ 0) :
    s.pass t = some (s.consumed t) := by
  have test : s.test t = some (s.consumed t) := by
    simp [test, Semaphore.P, available, consumed]
  cases phase : s.phase t with
  | running => simp [pass, next, phase, test]
  | queued => exact absurd phase awake
  | woken => simp [pass, next, phase, test]

theorem signal_nil (h : s.sem.queue = []) :
    s.signal = { s with
      sem := ⟨int32 (s.sem.value + 1), []⟩
      completedV := s.completedV + 1 } := by
  simp [signal, Semaphore.V, removeFront, h]

theorem signal_cons {rest : List Thread} (h : s.sem.queue = t :: rest) :
    s.signal = { s with
      sem := ⟨int32 (s.sem.value + 1), rest⟩
      phase := Function.update s.phase t .woken
      completedV := s.completedV + 1 } := by
  simp [signal, Semaphore.V, removeFront, h]

@[simp] theorem signal_value : s.signal.sem.value = int32 (s.sem.value + 1) := by
  cases hq : s.sem.queue with
  | nil => rw [signal_nil hq]
  | cons t rest => rw [signal_cons hq]

@[simp] theorem signal_completedP : s.signal.completedP = s.completedP := by
  cases hq : s.sem.queue with
  | nil => rw [signal_nil hq]
  | cons t rest => rw [signal_cons hq]

@[simp] theorem signal_completedV : s.signal.completedV = s.completedV + 1 := by
  cases hq : s.sem.queue with
  | nil => rw [signal_nil hq]
  | cons t rest => rw [signal_cons hq]

/-- A `V` moves its thread from the queue to the woken ones: nobody leaves `P`. -/
theorem signal_running (queued : ∀ u, u ∈ s.sem.queue → s.phase u = .queued) {u : Thread} :
    s.signal.phase u ≠ .running ↔ s.phase u ≠ .running := by
  cases hq : s.sem.queue with
  | nil => rw [signal_nil hq]
  | cons t rest =>
    rw [signal_cons hq]
    by_cases h : u = t
    · have := queued t (by simp [hq])
      simp [h, this]
    · simp [Function.update_of_ne h]

/-- Everything one event can do. -/
theorem next_cases {e : SemEvent Thread} (h : next e s = some s') :
    (∃ t, s.phase t ≠ .queued ∧ s.test t = some s') ∨ (e = .v ∧ s' = s.signal) := by
  cases e with
  | p t =>
    simp only [next] at h
    split at h
    next hp => exact .inl ⟨t, by simp [hp], h⟩
    · cases h
  | retest t =>
    simp only [next] at h
    split at h
    next hp => exact .inl ⟨t, by simp [hp], h⟩
    · cases h
  | v =>
    cases h
    exact .inr ⟨rfl, rfl⟩

end SemState

/-- What holds of the queue, whatever becomes of the value. -/
structure SemQueued (s : SemState Thread) : Prop where
  nodup : s.sem.queue.Nodup
  queued_iff : ∀ t, t ∈ s.sem.queue ↔ s.phase t = .queued

namespace SemQueued

variable {s s' : SemState Thread} {t : Thread}

omit [DecidableEq Thread] in
theorem initial (initialValue : Int) : SemQueued (.initial initialValue : SemState Thread) where
  nodup := by simp [SemState.initial, Semaphore.new]
  queued_iff := by simp [SemState.initial, Semaphore.new]

theorem consumed (inv : SemQueued s) (hphase : s.phase t ≠ .queued) :
    SemQueued (s.consumed t) where
  nodup := inv.nodup
  queued_iff := by
    intro u
    simp only [SemState.consumed, Function.update_apply]
    split
    next h => subst h; simp [inv.queued_iff, hphase]
    next => exact inv.queued_iff u

theorem slept (inv : SemQueued s) (hq : t ∉ s.sem.queue) : SemQueued (s.slept t) where
  nodup := by
    have := inv.nodup
    simp only [SemState.slept]
    rw [List.nodup_append]
    simpa using ⟨this, fun a ha => ne_of_mem_of_not_mem ha hq⟩
  queued_iff := by
    intro u
    simp only [SemState.slept, Function.update_apply, List.mem_append, List.mem_singleton]
    split
    next h => simp [h]
    next h => simp [h, inv.queued_iff u]

theorem signal (inv : SemQueued s) : SemQueued s.signal := by
  cases hq : s.sem.queue with
  | nil =>
    rw [SemState.signal_nil hq]
    refine ⟨List.nodup_nil, fun t => ?_⟩
    rw [← inv.queued_iff t, hq]
  | cons t rest =>
    have hnd := inv.nodup
    rw [hq, List.nodup_cons] at hnd
    rw [SemState.signal_cons hq]
    refine ⟨hnd.2, fun u => ?_⟩
    by_cases hu : u = t
    · subst hu
      simp [hnd.1]
    · have hmem := inv.queued_iff u
      rw [hq] at hmem
      simpa [Function.update_of_ne hu, hu] using hmem

theorem next (inv : SemQueued s) {e : SemEvent Thread} (h : SemState.next e s = some s') :
    SemQueued s' := by
  rcases SemState.next_cases h with ⟨t, hphase, htest⟩ | ⟨_, rfl⟩
  · rcases SemState.test_cases htest with ⟨_, rfl⟩ | ⟨_, hq, rfl⟩
    · exact inv.consumed hphase
    · exact inv.slept hq
  · exact inv.signal

theorem of_reachable {initialValue : Int} (h : (semMachine Thread initialValue).Reachable s) :
    SemQueued s :=
  h.invariant (fun _ hs => hs ▸ initial initialValue) (fun _ _ _ inv hn => inv.next hn)

/-- The assertion in `queue->Append` cannot fail for a thread that is running. -/
theorem test_isSome (inv : SemQueued s) (hphase : s.phase t ≠ .queued) : (s.test t).isSome := by
  have hq : t ∉ s.sem.queue := fun h => hphase ((inv.queued_iff t).mp h)
  unfold SemState.test Semaphore.P
  split
  next h =>
    split at h
    · simp [append_fresh hq] at h
    · cases h
  · rfl
  · rfl

end SemQueued

variable [Fintype Thread]

/-- How many waiters a `V` has taken off the queue that have not tested again. -/
def SemState.wokenCount (s : SemState Thread) : Nat :=
  count (fun t => s.phase t = .woken)

/-- The inductive invariant of the runs in which every `V` fits. `no_lost_wakeup`
is the reason a waiter is never forgotten: units that nobody has taken yet are
matched by waiters on their way. -/
structure SemInvariant (initialValue : Int) (s : SemState Thread) : Prop extends SemQueued s where
  nonneg : 0 ≤ s.sem.value
  fits : s.sem.value ≤ 2147483647
  balance : s.sem.value + s.completedP = initialValue + s.completedV
  no_lost_wakeup : s.sem.queue ≠ [] → s.sem.value ≤ s.wokenCount

namespace SemInvariant

variable {initialValue : Int} {s s' : SemState Thread} {t : Thread}

omit [DecidableEq Thread] in
theorem initial (low : 0 ≤ initialValue) (high : initialValue ≤ 2147483647) :
    SemInvariant initialValue (.initial initialValue : SemState Thread) where
  toSemQueued := .initial initialValue
  nonneg := low
  fits := high
  balance := by simp [SemState.initial, Semaphore.new]
  no_lost_wakeup := by simp [SemState.initial, Semaphore.new]

/-- A thread that tests leaves the woken ones or was not among them; either way
at most one of them is lost. -/
theorem wokenCount_le_update (s : SemState Thread) (t : Thread) {phase : Phase}
    (after : SemState Thread) (h : after.phase = Function.update s.phase t phase)
    (hp : phase ≠ .woken) : s.wokenCount ≤ after.wokenCount + 1 := by
  by_cases hw : s.phase t = .woken
  · refine le_of_eq (count_loss t hw (by simp [h, hp]) ?_)
    intro u hu
    simp [h, Function.update_of_ne hu]
  · refine le_trans (le_of_eq (count_congr ?_)) (Nat.le_succ _)
    intro u
    by_cases hu : u = t
    · subst hu
      simp [h, hp, hw]
    · simp [h, Function.update_of_ne hu]

/-- The decrement of a `P` that returns does not wrap. -/
theorem consumed_value (inv : SemInvariant initialValue s) :
    (s.consumed t).sem.value = s.sem.value - 1 := by
  have low := inv.nonneg
  have high := inv.fits
  exact int32_of_range (by omega) (by omega)

/-- The increment of a `V` that fits does not wrap. -/
theorem signalled_value (inv : SemInvariant initialValue s) (room : s.sem.value < 2147483647) :
    s.signal.sem.value = s.sem.value + 1 := by
  have low := inv.nonneg
  rw [SemState.signal_value]
  exact int32_of_range (by omega) (by omega)

theorem consumed (inv : SemInvariant initialValue s) (hphase : s.phase t ≠ .queued)
    (hv : s.sem.value ≠ 0) : SemInvariant initialValue (s.consumed t) := by
  have low := inv.nonneg
  have high := inv.fits
  have value := inv.consumed_value (t := t)
  exact {
    toSemQueued := inv.toSemQueued.consumed hphase
    nonneg := by omega
    fits := by omega
    balance := by
      have balance := inv.balance
      have done : (s.consumed t).completedP = s.completedP + 1 := rfl
      have same : (s.consumed t).completedV = s.completedV := rfl
      rw [value, done, same]
      push_cast
      omega
    no_lost_wakeup := by
      intro hq
      have before := inv.no_lost_wakeup hq
      have woken := wokenCount_le_update s t (s.consumed t) rfl (by simp)
      omega }

/-- A waiter goes to sleep only when there is no unit, so nothing can be lost. -/
theorem slept (inv : SemInvariant initialValue s) (hv : s.sem.value = 0)
    (hq : t ∉ s.sem.queue) : SemInvariant initialValue (s.slept t) where
  toSemQueued := inv.toSemQueued.slept hq
  nonneg := inv.nonneg
  fits := inv.fits
  balance := inv.balance
  no_lost_wakeup := by
    intro _
    simp only [SemState.slept, hv]
    exact Int.natCast_nonneg _

/-- A `V` that takes a waiter off the queue adds one to the woken. -/
theorem wokenCount_signal (inv : SemInvariant initialValue s) (waiting : s.sem.queue ≠ []) :
    s.signal.wokenCount = s.wokenCount + 1 := by
  cases hq : s.sem.queue with
  | nil => exact absurd hq waiting
  | cons t rest =>
    have htq : s.phase t = .queued := (inv.queued_iff t).mp (by simp [hq])
    rw [SemState.signal_cons hq]
    exact count_gain t (by simp [htq]) (by simp) (fun u hu => by simp [Function.update_of_ne hu])

theorem signal (inv : SemInvariant initialValue s) (room : s.sem.value < 2147483647) :
    SemInvariant initialValue s.signal := by
  have low := inv.nonneg
  have value := inv.signalled_value room
  exact {
    toSemQueued := inv.toSemQueued.signal
    nonneg := by omega
    fits := by omega
    balance := by
      have balance := inv.balance
      rw [value, SemState.signal_completedP, SemState.signal_completedV]
      push_cast
      omega
    no_lost_wakeup := by
      intro left
      have waiting : s.sem.queue ≠ [] := by
        intro empty
        rw [SemState.signal_nil empty] at left
        exact left rfl
      have before := inv.no_lost_wakeup waiting
      have woken := inv.wokenCount_signal waiting
      omega }

theorem next (inv : SemInvariant initialValue s) {e : SemEvent Thread} (fits : e.Fits s)
    (h : SemState.next e s = some s') : SemInvariant initialValue s' := by
  rcases SemState.next_cases h with ⟨t, hphase, htest⟩ | ⟨rfl, rfl⟩
  · rcases SemState.test_cases htest with ⟨hv, rfl⟩ | ⟨hv, hq, rfl⟩
    · exact inv.consumed hphase hv
    · exact inv.slept hv hq
  · exact inv.signal fits

theorem of_reachable (low : 0 ≤ initialValue) (high : initialValue ≤ 2147483647)
    (h : (semMachine Thread initialValue).ReachableUnder SemEvent.Fits s) :
    SemInvariant initialValue s :=
  h.invariant (fun _ hs => hs ▸ initial low high) (fun _ _ _ inv fits hn => inv.next fits hn)

/-- The steps after which the value is still not negative are those that fit. -/
theorem nonneg_next_iff (inv : SemInvariant initialValue s) {e : SemEvent Thread}
    (h : SemState.next e s = some s') : 0 ≤ s'.sem.value ↔ e.Fits s := by
  constructor
  · intro nonneg
    cases e with
    | p t | retest t => trivial
    | v =>
      cases h
      by_contra full
      have most : s.sem.value = 2147483647 := le_antisymm inv.fits (not_lt.mp full)
      rw [SemState.signal_value, most] at nonneg
      exact absurd nonneg (by decide)
  · intro fits
    exact (inv.next fits h).nonneg

end SemInvariant

/-- Every interleaving of `P` and `V`, from any non-negative initial value, in
which no `V` finds the value at the largest `int`: the value is the initial value
plus completed `V`s minus completed `P`s and never negative, no thread is queued
twice (the assertion in `Append` holds whenever a running or woken thread tests),
and no wakeup is lost. A `V` that does not fit leaves the value negative. -/
theorem semaphore_safe (v0 : CInt) (nonneg : 0 ≤ v0.toInt) (s : SemState Thread)
    (h : (semMachine Thread v0.toInt).ReachableUnder SemEvent.Fits s) :
    0 ≤ s.sem.value ∧
    s.sem.value = v0.toInt + s.completedV - s.completedP ∧
    s.sem.queue.Nodup ∧
    (∀ t, s.phase t ≠ .queued → (s.test t).isSome) ∧
    (s.sem.queue ≠ [] → s.sem.value ≤ s.wokenCount) ∧
    ¬ (0 < s.sem.value ∧ s.sem.queue ≠ [] ∧ s.wokenCount = 0) ∧
    (∀ e s', SemState.next e s = some s' → (0 ≤ s'.sem.value ↔ e.Fits s)) := by
  have inv := SemInvariant.of_reachable nonneg v0.range.2 h
  have hb := inv.balance
  refine ⟨inv.nonneg, by omega, inv.nodup, fun t ht => inv.test_isSome ht,
    inv.no_lost_wakeup, ?_, fun e s' step => inv.nonneg_next_iff step⟩
  rintro ⟨hpos, hq, hzero⟩
  have := inv.no_lost_wakeup hq
  omega

end Machine

/-- Two threads: the second waits, a `V` wakes it, the first takes the unit, and
the woken waiter goes back to the queue. -/
theorem semaphore_safe_stolen_unit :
    ∃ s, (semMachine (Fin 2) (0#32).toInt).runUnder SemEvent.Fits
        [.p 1, .v, .p 0, .retest 1] (.initial (0#32).toInt) = some s ∧
      s.sem.queue.Nodup ∧ s.sem.value = (0#32).toInt + s.completedV - s.completedP := by
  refine ⟨_, rfl, ?_⟩
  have safe := semaphore_safe 0#32 (by decide) _
    (Machine.ReachableUnder.runUnder (M := semMachine (Fin 2) (0#32).toInt) (.init rfl)
      [.p 1, .v, .p 0, .retest 1] rfl)
  exact ⟨safe.2.2.1, safe.2.1⟩

/-- One `V` on a semaphore created with the largest `int`. -/
theorem semaphore_overflows :
    ∃ s, (semMachine (Fin 1) (2147483647#32).toInt).run [.v] (.initial (2147483647#32).toInt) =
        some s ∧
      s.sem.value = -2147483648 ∧
      s.sem.value ≠ (2147483647#32).toInt + s.completedV - s.completedP :=
  ⟨_, rfl, by decide, by decide⟩

end NachOS.Threads
