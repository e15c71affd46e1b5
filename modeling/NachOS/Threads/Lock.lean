import NachOS.Threads.Semaphore

/-!
# Locks (threads/synch.cc:158-203, threads/synch.h:69-89)

A lock is a semaphore of initial value 1 and the thread that holds it. `Acquire`
is `P` followed by the assignment of `lockHolder`, which is not part of the
atomic section of `P`; `Release` checks its assertion, clears `lockHolder` and
then performs `V`. Each of these is a step of its own, so a context switch is
possible between any two of them. `Release` by a thread whose assertion fails
aborts and has no successor; `Acquire` by the holder itself is allowed and
blocks.
-/
namespace NachOS.Threads
open NachOS.Lib NachOS.Library

/-- Where a thread stands inside `Acquire` or `Release`. -/
inductive LockPc where
  | idle
  /-- Inside `semaphore->P()`. -/
  | acquiring
  /-- `P` has returned, `lockHolder` is not assigned yet. -/
  | pastP
  /-- `Release` has cleared `lockHolder`, `semaphore->V()` is still to come. -/
  | releasing
  deriving DecidableEq

/-- The lock, the threads' positions, and for each thread whether it has
completed an `Acquire` and not begun the matching `Release`. -/
structure LockState (Thread : Type*) where
  semaphore : SemState Thread
  lockHolder : Option Thread
  pc : Thread → LockPc
  inside : Thread → Bool

inductive LockEvent (Thread : Type*) where
  | acquire (t : Thread)
  | retest (t : Thread)
  | setHolder (t : Thread)
  | release (t : Thread)
  | v (t : Thread)

/-- The thread that takes the step. -/
def LockEvent.thread {Thread : Type*} : LockEvent Thread → Thread
  | acquire t | retest t | setHolder t | release t | v t => t

variable {Thread : Type*} [DecidableEq Thread]

namespace LockState

def initial : LockState Thread where
  semaphore := .initial 1
  lockHolder := none
  pc := fun _ => .idle
  inside := fun _ => false

/-- `Lock::IsHeldByCurrentThread`, called by `currentThread`. -/
def isHeldByCurrentThread (s : LockState Thread) (currentThread : Thread) : Bool :=
  s.lockHolder = some currentThread

/-- The place of `t` once its test of the inner semaphore left it as `sem`. -/
def afterTest (s : LockState Thread) (t : Thread) (sem : SemState Thread) : LockState Thread :=
  { s with
    semaphore := sem
    pc := Function.update s.pc t (if sem.phase t = .running then .pastP else .acquiring) }

def assigned (s : LockState Thread) (t : Thread) : LockState Thread :=
  { s with
    lockHolder := some t
    pc := Function.update s.pc t .idle
    inside := Function.update s.inside t true }

def cleared (s : LockState Thread) (t : Thread) : LockState Thread :=
  { s with
    lockHolder := none
    pc := Function.update s.pc t .releasing
    inside := Function.update s.inside t false }

def freed (s : LockState Thread) (t : Thread) : LockState Thread :=
  { s with
    semaphore := s.semaphore.signal
    pc := Function.update s.pc t .idle }

def next : LockEvent Thread → LockState Thread → Option (LockState Thread)
  | .acquire t, s =>
    if s.pc t = .idle then (SemState.next (.p t) s.semaphore).map (s.afterTest t) else none
  | .retest t, s =>
    if s.pc t = .acquiring then (SemState.next (.retest t) s.semaphore).map (s.afterTest t) else none
  | .setHolder t, s => if s.pc t = .pastP then some (s.assigned t) else none
  | .release t, s =>
    if s.pc t = .idle then
      if s.isHeldByCurrentThread t then some (s.cleared t) else none
    else none
  | .v t, s => if s.pc t = .releasing then some (s.freed t) else none

/-- Past the `P` of an `Acquire` and before the `V` of its `Release`. -/
def Critical (s : LockState Thread) (t : Thread) : Prop :=
  s.pc t = .pastP ∨ s.inside t = true ∨ s.pc t = .releasing

instance (s : LockState Thread) (t : Thread) : Decidable (s.Critical t) :=
  inferInstanceAs (Decidable (_ ∨ _ ∨ _))

end LockState

def lockMachine (Thread : Type*) [DecidableEq Thread] :
    Machine (LockState Thread) (LockEvent Thread) where
  init s := s = .initial
  next := LockState.next

namespace LockState

variable {s s' : LockState Thread} {t : Thread}

theorem isHeld_iff : s.isHeldByCurrentThread t = true ↔ s.lockHolder = some t := by
  simp [isHeldByCurrentThread]

/-- `t` passed the test of the inner semaphore. -/
def entered (s : LockState Thread) (t : Thread) : LockState Thread :=
  { s with
    semaphore := s.semaphore.consumed t
    pc := Function.update s.pc t .pastP }

/-- `t` went to sleep on the inner semaphore. -/
def blocked (s : LockState Thread) (t : Thread) : LockState Thread :=
  { s with
    semaphore := s.semaphore.slept t
    pc := Function.update s.pc t .acquiring }

/-- Everything one event can do. -/
inductive Effect (s : LockState Thread) : LockEvent Thread → LockState Thread → Prop
  | enter {e : LockEvent Thread} (t : Thread)
      (event : e = .acquire t ∧ s.pc t = .idle ∨ e = .retest t ∧ s.pc t = .acquiring)
      (available : s.semaphore.sem.value ≠ 0) : Effect s e (s.entered t)
  | block {e : LockEvent Thread} (t : Thread)
      (event : e = .acquire t ∧ s.pc t = .idle ∨ e = .retest t ∧ s.pc t = .acquiring)
      (unavailable : s.semaphore.sem.value = 0) : Effect s e (s.blocked t)
  | setHolder (t : Thread) (pc : s.pc t = .pastP) : Effect s (.setHolder t) (s.assigned t)
  | release (t : Thread) (pc : s.pc t = .idle) (held : s.lockHolder = some t) :
      Effect s (.release t) (s.cleared t)
  | v (t : Thread) (pc : s.pc t = .releasing) : Effect s (.v t) (s.freed t)

theorem Effect.of_test {e : LockEvent Thread} {sem : SemState Thread}
    (event : e = .acquire t ∧ s.pc t = .idle ∨ e = .retest t ∧ s.pc t = .acquiring)
    (h : s.semaphore.test t = some sem) : s.Effect e (s.afterTest t sem) := by
  rcases SemState.test_cases h with ⟨hv, rfl⟩ | ⟨hv, _, rfl⟩
  · have : s.afterTest t (s.semaphore.consumed t) = s.entered t := by
      simp [afterTest, entered, SemState.consumed]
    exact this ▸ .enter t event hv
  · have : s.afterTest t (s.semaphore.slept t) = s.blocked t := by
      simp [afterTest, blocked, SemState.slept]
    exact this ▸ .block t event hv

theorem next_effect {e : LockEvent Thread} (h : next e s = some s') : s.Effect e s' := by
  cases e with
  | acquire t =>
    simp only [next, SemState.next] at h
    split at h
    next hpc =>
      obtain ⟨sem, hsem, rfl⟩ := Option.map_eq_some_iff.mp h
      split at hsem
      · exact .of_test (.inl ⟨rfl, hpc⟩) hsem
      · cases hsem
    · cases h
  | retest t =>
    simp only [next, SemState.next] at h
    split at h
    next hpc =>
      obtain ⟨sem, hsem, rfl⟩ := Option.map_eq_some_iff.mp h
      split at hsem
      · exact .of_test (.inr ⟨rfl, hpc⟩) hsem
      · cases hsem
    · cases h
  | setHolder t =>
    simp only [next] at h
    split at h
    next hpc => exact Option.some.inj h ▸ .setHolder t hpc
    · cases h
  | release t =>
    simp only [next] at h
    split at h
    next hpc =>
      split at h
      next hheld => exact Option.some.inj h ▸ .release t hpc (isHeld_iff.mp hheld)
      · cases h
    · cases h
  | v t =>
    simp only [next] at h
    split at h
    next hpc => exact Option.some.inj h ▸ .v t hpc
    · cases h

/-- A step of one thread moves no other thread. -/
theorem Effect.others {e : LockEvent Thread} (h : s.Effect e s') {u : Thread}
    (hu : u ≠ e.thread) : s'.pc u = s.pc u ∧ s'.inside u = s.inside u := by
  cases h with
  | enter t event _ | block t event _ =>
    have ht : u ≠ t := by rcases event with ⟨rfl, _⟩ | ⟨rfl, _⟩ <;> exact hu
    simp [entered, blocked, Function.update_of_ne ht]
  | setHolder t _ | release t _ _ | v t _ =>
    have ht : u ≠ t := hu
    simp [assigned, cleared, freed, Function.update_of_ne ht]

/-- What an event does to the thread that takes it. -/
theorem Effect.own {e : LockEvent Thread}
    (h : s.Effect e s') (own : e.thread = t) :
    ((e = .acquire t ∧ s.pc t = .idle ∨ e = .retest t ∧ s.pc t = .acquiring) ∧
      (s'.pc t = .pastP ∨ s'.pc t = .acquiring) ∧ s'.inside t = s.inside t) ∨
    (e = .setHolder t ∧ s.pc t = .pastP ∧ s'.pc t = .idle ∧ s'.inside t = true) ∨
    (e = .release t ∧ s.pc t = .idle ∧ s'.pc t = .releasing ∧ s'.inside t = false) ∨
    (e = .v t ∧ s.pc t = .releasing ∧ s'.pc t = .idle ∧ s'.inside t = s.inside t) := by
  cases h with
  | enter u event _ | block u event _ =>
    have hu : u = t := by rcases event with ⟨rfl, _⟩ | ⟨rfl, _⟩ <;> exact own
    subst hu
    exact .inl ⟨event, by simp [entered, blocked], rfl⟩
  | setHolder u pc =>
    cases own
    refine .inr (.inl ⟨rfl, pc, ?_, ?_⟩) <;> simp [assigned, LockEvent.thread]
  | release u pc _ =>
    cases own
    refine .inr (.inr (.inl ⟨rfl, pc, ?_, ?_⟩)) <;> simp [cleared, LockEvent.thread]
  | v u pc =>
    cases own
    exact .inr (.inr (.inr ⟨rfl, pc, by simp [freed, LockEvent.thread], rfl⟩))

end LockState

/-- The inductive invariant: one thread at most in the critical part, the inner
value tells whether there is one, and `lockHolder` names it exactly while it is
between the assignment in `Acquire` and the clearing in `Release`. -/
structure LockInvariant (s : LockState Thread) : Prop where
  exclusive : ∀ t u, s.Critical t → s.Critical u → t = u
  free : (∀ t, ¬ s.Critical t) → s.semaphore.sem.value = 1
  busy : ∀ t, s.Critical t → s.semaphore.sem.value = 0
  holder : ∀ t, s.lockHolder = some t ↔ s.inside t = true
  settled : ∀ t, s.inside t = true → s.pc t ≠ .pastP ∧ s.pc t ≠ .releasing
  waiting : ∀ t, s.pc t = .acquiring ↔ s.semaphore.phase t ≠ .running

namespace LockInvariant

variable {s s' : LockState Thread} {t : Thread}

omit [DecidableEq Thread] in
theorem initial : LockInvariant (LockState.initial : LockState Thread) where
  exclusive := by simp [LockState.Critical, LockState.initial]
  free := by simp [LockState.initial, SemState.initial, Semaphore.new]
  busy := by simp [LockState.Critical, LockState.initial]
  holder := by simp [LockState.initial]
  settled := by simp [LockState.initial]
  waiting := by simp [LockState.initial, SemState.initial]

/-- A test that passes found the value 1: nobody was in the critical part. -/
theorem entered (inv : LockInvariant s) (hv : s.semaphore.sem.value ≠ 0) :
    LockInvariant (s.entered t) := by
  have none : ∀ u, ¬ s.Critical u := fun u hu => hv (inv.busy u hu)
  have only : ∀ u, (s.entered t).Critical u ↔ u = t := by
    intro u
    have hu := none u
    by_cases h : u = t
    · simp [LockState.Critical, LockState.entered, h]
    · simpa [LockState.Critical, LockState.entered, h, Function.update_of_ne h] using hu
  exact {
    exclusive := by
      intro u w hu hw
      rw [(only u).mp hu, (only w).mp hw]
    free := by
      intro h
      exact absurd ((only t).mpr rfl) (h t)
    busy := by
      intro u _
      simp [LockState.entered, SemState.consumed, inv.free none]
    holder := inv.holder
    settled := by
      intro u hu
      exact absurd (.inr (.inl hu)) (none u)
    waiting := by
      intro u
      by_cases h : u = t
      · simp [LockState.entered, h, SemState.consumed]
      · simpa [LockState.entered, SemState.consumed, Function.update_of_ne h] using inv.waiting u }

omit [DecidableEq Thread] in
/-- Steps that keep the critical part keep its three properties. -/
theorem critical_congr (inv : LockInvariant s) (same : ∀ u, s'.Critical u ↔ s.Critical u)
    (value : s'.semaphore.sem.value = s.semaphore.sem.value) :
    (∀ u w, s'.Critical u → s'.Critical w → u = w) ∧
    ((∀ u, ¬ s'.Critical u) → s'.semaphore.sem.value = 1) ∧
    (∀ u, s'.Critical u → s'.semaphore.sem.value = 0) := by
  simp only [same, value]
  exact ⟨inv.exclusive, inv.free, inv.busy⟩

theorem blocked (inv : LockInvariant s) (hpc : s.pc t = .idle ∨ s.pc t = .acquiring) :
    LockInvariant (s.blocked t) := by
  have same : ∀ u, (s.blocked t).Critical u ↔ s.Critical u := by
    intro u
    by_cases h : u = t
    · rcases hpc with hpc | hpc <;> simp [LockState.Critical, LockState.blocked, h, hpc]
    · simp [LockState.Critical, LockState.blocked, Function.update_of_ne h]
  obtain ⟨exclusive, free, busy⟩ := inv.critical_congr same rfl
  refine ⟨exclusive, free, busy, inv.holder, fun u hu => ?_, fun u => ?_⟩
  · by_cases h : u = t
    · simp [LockState.blocked, h]
    · simpa [LockState.blocked, Function.update_of_ne h] using inv.settled u hu
  · by_cases h : u = t
    · simp [LockState.blocked, h, SemState.slept]
    · simpa [LockState.blocked, SemState.slept, Function.update_of_ne h] using inv.waiting u

theorem assigned (inv : LockInvariant s) (hpc : s.pc t = .pastP) :
    LockInvariant (s.assigned t) := by
  have same : ∀ u, (s.assigned t).Critical u ↔ s.Critical u := by
    intro u
    by_cases h : u = t
    · simp [LockState.Critical, LockState.assigned, h, hpc]
    · simp [LockState.Critical, LockState.assigned, Function.update_of_ne h]
  obtain ⟨exclusive, free, busy⟩ := inv.critical_congr same rfl
  refine ⟨exclusive, free, busy, fun u => ?_, fun u hu => ?_, fun u => ?_⟩
  · by_cases h : u = t
    · simp [LockState.assigned, h]
    · have : s.inside u ≠ true := fun hu => h (inv.exclusive u t (.inr (.inl hu)) (.inl hpc))
      simp [LockState.assigned, Function.update_of_ne h, this, Ne.symm h]
  · by_cases h : u = t
    · simp [LockState.assigned, h]
    · simp only [LockState.assigned, Function.update_of_ne h] at hu ⊢
      exact inv.settled u hu
  · by_cases h : u = t
    · simpa [LockState.assigned, h, hpc] using inv.waiting t
    · simpa [LockState.assigned, Function.update_of_ne h] using inv.waiting u

theorem cleared (inv : LockInvariant s) (hpc : s.pc t = .idle) (hheld : s.lockHolder = some t) :
    LockInvariant (s.cleared t) := by
  have hinside : s.inside t = true := (inv.holder t).mp hheld
  have same : ∀ u, (s.cleared t).Critical u ↔ s.Critical u := by
    intro u
    by_cases h : u = t
    · simp [LockState.Critical, LockState.cleared, h, hinside]
    · simp [LockState.Critical, LockState.cleared, Function.update_of_ne h]
  have outside : ∀ u, (s.cleared t).inside u ≠ true := by
    intro u hu
    by_cases h : u = t
    · simp [LockState.cleared, h] at hu
    · simp only [LockState.cleared, Function.update_of_ne h] at hu
      exact h (inv.exclusive u t (.inr (.inl hu)) (.inr (.inl hinside)))
  obtain ⟨exclusive, free, busy⟩ := inv.critical_congr same rfl
  refine ⟨exclusive, free, busy, fun u => ?_, fun u hu => absurd hu (outside u), fun u => ?_⟩
  · exact ⟨fun h => by simp [LockState.cleared] at h, fun h => absurd h (outside u)⟩
  · by_cases h : u = t
    · simpa [LockState.cleared, h, hpc] using inv.waiting t
    · simpa [LockState.cleared, Function.update_of_ne h] using inv.waiting u

theorem freed (inv : LockInvariant s)
    (queued : ∀ u, u ∈ s.semaphore.sem.queue → s.semaphore.phase u = .queued)
    (hpc : s.pc t = .releasing) : LockInvariant (s.freed t) := by
  have ht : s.Critical t := .inr (.inr hpc)
  have none : ∀ u, ¬ (s.freed t).Critical u := by
    intro u hu
    by_cases h : u = t
    · have hout : s.inside t ≠ true := fun hin => (inv.settled t hin).2 hpc
      simp [LockState.Critical, LockState.freed, h, hout] at hu
    · simp only [LockState.Critical, LockState.freed, Function.update_of_ne h] at hu
      exact h (inv.exclusive u t hu ht)
  refine ⟨fun u _ hu => absurd hu (none u), fun _ => ?_, fun u hu => absurd hu (none u),
    inv.holder, fun u hu => absurd (.inr (.inl hu)) (none u), fun u => ?_⟩
  · simp only [LockState.freed, SemState.signal_value, inv.busy t ht]
    rfl
  · simp only [LockState.freed]
    rw [SemState.signal_running queued, ← inv.waiting u]
    by_cases h : u = t
    · simp [h, hpc]
    · simp [Function.update_of_ne h]

end LockInvariant

/-- A lock's semaphore is run as a semaphore of initial value 1. -/
def lockSemaphore (Thread : Type*) [DecidableEq Thread] :
    Machine.Projection (lockMachine Thread) (semMachine Thread 1) where
  abs := LockState.semaphore
  init := by
    rintro s rfl
    rfl
  step := by
    intro e s s' h
    change LockState.next e s = some s' at h
    cases e with
    | acquire t =>
      simp only [LockState.next] at h
      split at h
      · obtain ⟨sem, hsem, rfl⟩ := Option.map_eq_some_iff.mp h
        exact .inr ⟨.p t, hsem⟩
      · cases h
    | retest t =>
      simp only [LockState.next] at h
      split at h
      · obtain ⟨sem, hsem, rfl⟩ := Option.map_eq_some_iff.mp h
        exact .inr ⟨.retest t, hsem⟩
      · cases h
    | v t =>
      simp only [LockState.next] at h
      split at h
      · cases h
        exact .inr ⟨.v, rfl⟩
      · cases h
    | setHolder t =>
      cases LockState.next_effect h with
      | setHolder _ _ => exact .inl rfl
      | enter _ event _ | block _ event _ => simp at event
    | release t =>
      cases LockState.next_effect h with
      | release _ _ _ => exact .inl rfl
      | enter _ event _ | block _ event _ => simp at event

theorem LockInvariant.of_reachable {s : LockState Thread}
    (h : (lockMachine Thread).Reachable s) : LockInvariant s := by
  induction h with
  | init h => exact h ▸ LockInvariant.initial
  | step before _ h inv =>
    have sem := SemQueued.of_reachable ((lockSemaphore Thread).reachable before)
    cases LockState.next_effect h with
    | enter t _ available => exact inv.entered available
    | block t event _ => exact inv.blocked (event.imp And.right And.right)
    | setHolder t pc => exact inv.assigned pc
    | release t pc held => exact inv.cleared pc held
    | v t pc => exact inv.freed (fun u hu => (sem.queued_iff u).mp hu) pc

omit [DecidableEq Thread] in
theorem LockInvariant.value_le {s : LockState Thread} (inv : LockInvariant s) :
    s.semaphore.sem.value ≤ 1 := by
  by_cases taken : ∃ t, s.Critical t
  · obtain ⟨t, ht⟩ := taken
    simp [inv.busy t ht]
  · exact le_of_eq (inv.free fun t ht => taken ⟨t, ht⟩)

/-- A lock never takes its semaphore near the largest `int`. -/
theorem lock_semaphore [Fintype Thread] {s : LockState Thread}
    (h : (lockMachine Thread).Reachable s) : SemInvariant 1 s.semaphore := by
  refine .of_reachable (by decide) (by decide) ((lockSemaphore Thread).reachableUnder ?_ h)
  intro s reached
  have value := (LockInvariant.of_reachable reached).value_le
  exact SemEvent.fits_of_lt (s := s.semaphore) (by omega)

/-- Every interleaving of `Acquire` and `Release`, with a switch possible between
`P` and the assignment of `lockHolder`: mutual exclusion, the meaning of the
inner value, and the exact meaning of the holder test. -/
theorem lock_safe [Fintype Thread] (s : LockState Thread)
    (h : (lockMachine Thread).Reachable s) :
    (∀ t u, s.Critical t → s.Critical u → t = u) ∧
    (s.semaphore.sem.value = 1 ↔ ∀ t, ¬ s.Critical t) ∧
    (s.semaphore.sem.value = 0 ↔ ∃ t, s.Critical t) ∧
    (∀ t, s.isHeldByCurrentThread t = true ↔ s.inside t = true) := by
  have inv := LockInvariant.of_reachable h
  refine ⟨inv.exclusive, ⟨?_, inv.free⟩, ⟨?_, fun ⟨t, ht⟩ => inv.busy t ht⟩, fun t => ?_⟩
  · intro one t ht
    rw [inv.busy t ht] at one
    exact absurd one (by decide)
  · intro zero
    by_contra hnone
    rw [inv.free (fun t ht => hnone ⟨t, ht⟩)] at zero
    exact absurd zero (by decide)
  · exact LockState.isHeld_iff.trans (inv.holder t)

/-- Thread 0 is past `P` but not yet the holder, and thread 1 is already queued. -/
theorem lock_safe_before_assignment :
    ∃ s, (lockMachine (Fin 2)).run [.acquire 0, .acquire 1] .initial = some s ∧
      s.Critical 0 ∧ s.isHeldByCurrentThread 0 = false ∧ s.semaphore.sem.value = 0 := by
  refine ⟨_, rfl, ?_⟩
  have safe := lock_safe _ ((Machine.Reachable.init (M := lockMachine (Fin 2)) rfl).run
    [.acquire 0, .acquire 1] rfl)
  exact ⟨.inl rfl, rfl, safe.2.2.1.mpr ⟨0, .inl rfl⟩⟩

end NachOS.Threads
