import NachOS.Filesys.SynchDisk

/-!
# Nobody is forgotten (threads/synch.cc, threads/synchlist.cc, filesys/synchdisk.cc)

The invariants of the modules before this one say what the locks, condition variables and
lists never do. Here it is shown that they go on: as long as a thread is inside a call, some
thread can take its next step, unless all that are left wait for an item of an empty list.
A state in which no thread can take a step is where a run without new calls ends.
-/
namespace NachOS.Threads
open NachOS.Lib NachOS.Library

section Machine

variable {Thread : Type*} [DecidableEq Thread]

section Lock

variable [Fintype Thread] {s : LockState Thread} {t : Thread}

/-- A thread that is outside of the lock's code can call `Acquire`. -/
theorem LockState.acquire_enabled (h : (lockMachine Thread).Reachable s) (pc : s.pc t = .idle) :
    ∃ s', LockState.next (.acquire t) s = some s' := by
  have inv := LockInvariant.of_reachable h
  have running : s.semaphore.phase t = .running := by
    by_contra waits
    have acquiring := (inv.waiting t).mpr waits
    rw [pc] at acquiring
    cases acquiring
  obtain ⟨after, test⟩ : ∃ after, s.semaphore.test t = some after :=
    Option.isSome_iff_exists.mp ((lock_semaphore h).test_isSome (by simp [running]))
  simp [LockState.next, pc, SemState.next, running, test]

omit [Fintype Thread] in
theorem LockState.release_enabled (inv : LockInvariant s) (pc : s.pc t = .idle)
    (inside : s.inside t = true) : ∃ s', LockState.next (.release t) s = some s' := by
  have held : s.isHeldByCurrentThread t = true :=
    LockState.isHeld_iff.mpr ((inv.holder t).mpr inside)
  simp [LockState.next, pc, held]

/-- A thread that was woken by the inner semaphore can test again. -/
theorem LockState.retest_enabled (h : (lockMachine Thread).Reachable s)
    (woken : s.semaphore.phase t = .woken) : ∃ s', LockState.next (.retest t) s = some s' := by
  have inv := LockInvariant.of_reachable h
  have acquiring : s.pc t = .acquiring := (inv.waiting t).mpr (by simp [woken])
  obtain ⟨after, test⟩ : ∃ after, s.semaphore.test t = some after :=
    Option.isSome_iff_exists.mp ((lock_semaphore h).test_isSome (by simp [woken]))
  simp [LockState.next, acquiring, SemState.next, woken, test]

/-- While the lock is free, one of those who want it has been woken. -/
theorem LockState.free_woken (h : (lockMachine Thread).Reachable s)
    (free : ∀ u, ¬ s.Critical u) (acquiring : s.pc t = .acquiring) :
    ∃ u, s.semaphore.phase u = .woken := by
  have inv := LockInvariant.of_reachable h
  have sem := lock_semaphore h
  cases phase : s.semaphore.phase t with
  | running => exact absurd phase ((inv.waiting t).mp acquiring)
  | woken => exact ⟨t, phase⟩
  | queued =>
    have unslept := sem.no_lost_wakeup (List.ne_nil_of_mem ((sem.queued_iff t).mpr phase))
    rw [inv.free free] at unslept
    by_contra none
    push Not at none
    have zero : s.semaphore.wokenCount = 0 := by simp [SemState.wokenCount, count, none]
    rw [zero] at unslept
    exact absurd unslept (by decide)

omit [Fintype Thread] in
/-- A thread in the critical part, or past it, inside a call on the lock. -/
theorem LockState.continues_enabled (critical : s.pc t = .pastP ∨ s.pc t = .releasing) :
    ∃ e s', s.continues t = some e ∧ LockState.next e s = some s' := by
  rcases critical with pc | pc
  · exact ⟨.setHolder t, s.assigned t, by simp [LockState.continues, pc],
      by simp [LockState.next, pc]⟩
  · exact ⟨.v t, s.freed t, by simp [LockState.continues, pc], by simp [LockState.next, pc]⟩

end Lock

/-- The semaphore of a `Wait` belongs to one thread, which alone performs `P` on it. -/
def CondPc.SemAt (t : Thread) (sem : SemState Thread) : CondPc → Prop
  | waitRelease _ | waitUnlock _ | waitP _ => sem.phase t = .running ∧ sem.sem.queue = []
  | waitBlocked _ =>
    sem.phase t = .queued ∧ sem.sem.queue = [t] ∧ sem.sem.value = 0 ∨
      sem.phase t = .woken ∧ sem.sem.queue = [] ∧ sem.sem.value ≠ 0
  | idle | waitAcquire _ | waitLock _ | waitDelete _ | signalV _ | broadcast | broadcastV _ => True

/-- The life of the waiters' semaphores. -/
def CondState.Slept (s : CondState Thread) : Prop :=
  ∀ t w sem, (s.pc t).waiter = some w → s.waiters w = some sem → (s.pc t).SemAt t sem

namespace CondState

variable {s s' : CondState Thread} {t : Thread}

omit [DecidableEq Thread] in
theorem Slept.congr (h : s.Slept) (waiters : s'.waiters = s.waiters)
    (pc : ∀ u w, (s'.pc u).waiter = some w → (s.pc u).waiter = some w ∧
      ∀ sem, (s.pc u).SemAt u sem → (s'.pc u).SemAt u sem) : s'.Slept := by
  intro u w sem waits live
  obtain ⟨before, place⟩ := pc u w waits
  rw [waiters] at live
  exact place sem (h u w sem before live)

/-- `t` moves, and no semaphore is touched. -/
theorem Slept.move (h : s.Slept) {pc : CondPc} (waiters : s'.waiters = s.waiters)
    (pcs : s'.pc = Function.update s.pc t pc)
    (own : ∀ w, pc.waiter = some w → (s.pc t).waiter = some w ∧
      ∀ sem, (s.pc t).SemAt t sem → pc.SemAt t sem) : s'.Slept := by
  apply h.congr waiters
  intro u w waits
  rw [pcs] at waits ⊢
  by_cases hu : u = t
  · subst hu
    rw [Function.update_self] at waits ⊢
    exact own w waits
  · rw [Function.update_of_ne hu] at waits ⊢
    exact ⟨waits, fun _ place => place⟩

/-- Only the semaphore `w` changes, which belongs to nobody but its owner `u`. -/
theorem Slept.touch (h : s.Slept) {w : Nat} {pc : CondPc} {new : Option (SemState Thread)}
    (waiters : s'.waiters = Function.update s.waiters w new)
    (pcs : s'.pc = Function.update s.pc t pc)
    (own : ∀ x, pc.waiter = some x → x = w ∧ ∀ sem, new = some sem → pc.SemAt t sem)
    (others : ∀ u, u ≠ t → (s.pc u).waiter = some w → ∀ sem, new = some sem →
      (s.pc u).SemAt u sem) : s'.Slept := by
  intro u x sem waits live
  rw [waiters] at live
  rw [pcs] at waits ⊢
  by_cases hu : u = t
  · subst hu
    rw [Function.update_self] at waits ⊢
    obtain ⟨rfl, place⟩ := own x waits
    rw [Function.update_self] at live
    exact place sem live
  · rw [Function.update_of_ne hu] at waits ⊢
    by_cases hx : x = w
    · subst hx
      rw [Function.update_self] at live
      exact others u hu waits sem live
    · rw [Function.update_of_ne hx] at live
      exact h u x sem waits live

/-- `V` on the semaphore of `u`, which has not been signalled before. -/
theorem SemAt.signal {u : Thread} {sem : SemState Thread} {pc : CondPc} (place : pc.SemAt u sem)
    (value : sem.sem.value = 0) : pc.SemAt u sem.signal := by
  cases pc with
  | waitRelease | waitUnlock | waitP =>
    obtain ⟨running, empty⟩ := place
    rw [SemState.signal_nil empty]
    exact ⟨running, rfl⟩
  | waitBlocked =>
    rcases place with ⟨queued, queue, -⟩ | ⟨-, -, granted⟩
    · rw [SemState.signal_cons queue]
      exact .inr ⟨by simp, rfl, by simp [value]⟩
    · exact absurd value granted
  | idle | waitAcquire | waitLock | waitDelete | signalV | broadcast | broadcastV => trivial

/-- A thread asleep on its own semaphore tests it only when it was woken. -/
theorem retest_woken {w : Nat} {sem : SemState Thread} (pc : s.pc t = .waitBlocked w)
    (live : s.waiters w = some sem) (h : CondState.next (.step t) s = some s') :
    sem.phase t = .woken := by
  simp only [CondState.next, stepThread, pc, waiterP, live, SemState.next] at h
  by_contra asleep
  simp [asleep] at h

/-- A thread in `P` that finds no unit goes to sleep as the only one on its semaphore. -/
theorem SemAt.slept {w : Nat} {sem : SemState Thread} {pc : CondPc} (place : pc.SemAt t sem)
    (inP : pc = .waitP w ∨ pc = .waitBlocked w)
    (woken : pc = .waitBlocked w → sem.phase t = .woken) (unavailable : sem.sem.value = 0) :
    (CondPc.waitBlocked w).SemAt t (sem.slept t) := by
  have queue : sem.sem.queue = [] := by
    rcases inP with rfl | rfl
    · exact place.2
    · rcases place with ⟨queued, -⟩ | ⟨-, empty, -⟩
      · cases queued.symm.trans (woken rfl)
      · exact empty
  left
  refine ⟨by simp [SemState.slept], ?_, unavailable⟩
  simp [SemState.slept, queue]

theorem waiter_of_inP {w : Nat} {pc : CondPc} (inP : pc = .waitP w ∨ pc = .waitBlocked w) :
    pc.waiter = some w := by
  rcases inP with rfl | rfl
  · rfl
  · rfl

/-- `t` moves and changes its own semaphore, to which no other thread's place refers. -/
theorem Slept.own (h : s.Slept) (inv : CondInvariant s) {w : Nat} {pc : CondPc}
    {new : Option (SemState Thread)} (waits : (s.pc t).waiter = some w)
    (waiters : s'.waiters = Function.update s.waiters w new)
    (pcs : s'.pc = Function.update s.pc t pc)
    (own : ∀ x, pc.waiter = some x → x = w ∧ ∀ sem, new = some sem → pc.SemAt t sem) :
    s'.Slept := by
  refine h.touch waiters pcs own ?_
  intro u other also
  exact absurd (inv.unique u t w also waits) other

theorem Slept.lock (h : s.Slept) {e : LockEvent Thread} {pc : CondPc}
    (turn : LockTurn t e (s.pc t) pc) (waiters : s'.waiters = s.waiters)
    (pcs : s'.pc = Function.update s.pc t pc) : s'.Slept := by
  refine h.move waiters pcs ?_
  intro w waits
  generalize before : s.pc t = place at turn
  cases turn with
  | plain own => cases waits
  | release x | unlock x | acquire x | retest x | assign x =>
    exact ⟨waits, fun sem at_x => at_x⟩

/-- The new semaphore of a `Wait` is nobody else's. -/
theorem Slept.enqueue (h : s.Slept) (inv : CondInvariant s) (waitQueue : List Nat) :
    (s.enqueue t waitQueue).Slept := by
  refine h.touch rfl rfl ?_ ?_
  · intro x waits
    refine ⟨(Option.some.inj waits).symm, ?_⟩
    intro sem new
    cases new
    exact ⟨rfl, rfl⟩
  · intro u _ waits
    exact absurd (inv.bound _ (inv.owner u _ waits).1).1 (Nat.lt_irrefl _)

theorem Slept.signal (h : s.Slept) {w : Nat} {rest : List Nat} :
    ((s.issue t .idle).releaseFront t w rest (.signalV w)).Slept := by
  refine h.congr rfl ?_
  intro u x waits
  by_cases hu : u = t
  · subst hu
    simp [releaseFront, CondPc.waiter] at waits
  · simp only [releaseFront, issue, Function.update_of_ne hu] at waits ⊢
    exact ⟨waits, fun _ place => place⟩

/-- The `V` of a signal reaches the waiter while its unit is not there yet. -/
theorem Slept.v (h : s.Slept) (inv : CondInvariant s) {w : Nat} {sem : SemState Thread}
    {pc : CondPc}
    (place : s.pc t = .signalV w ∧ pc = .idle ∨ s.pc t = .broadcastV w ∧ pc = .broadcast)
    (live : s.waiters w = some sem)
    (waiters : s'.waiters = Function.update s.waiters w (some sem.signal))
    (pcs : s'.pc = Function.update s.pc t pc) : s'.Slept := by
  have signalling : (s.pc t).signalling = some w := by
    rcases place with ⟨pc, -⟩ | ⟨pc, -⟩ <;> simp [pc, CondPc.signalling]
  obtain ⟨owner, waits, -, sem', live', value⟩ := inv.pending w (.inr ⟨t, signalling⟩)
  obtain rfl := Option.some.inj (live.symm.trans live')
  refine h.touch waiters pcs ?_ ?_
  · intro x same
    rcases place with ⟨-, rfl⟩ | ⟨-, rfl⟩
    · cases same
    · cases same
  · intro u _ also new granted
    cases granted
    exact SemAt.signal (h u w sem also live) value

theorem Slept.next (h : s.Slept) (inv : CondInvariant s) {e : CondEvent Thread}
    (step : CondState.next e s = some s') : s'.Slept := by
  cases next_effect step with
  | lock t e after pc call turn locked => exact h.lock turn rfl rfl
  | enqueue t rest held => exact h.enqueue inv _
  | pass t w sem pc live available =>
    refine h.own inv (waiter_of_inP pc) rfl rfl ?_
    intro x same
    exact ⟨(Option.some.inj same).symm, fun _ _ => trivial⟩
  | block t w sem pc live unavailable =>
    have waits := waiter_of_inP pc
    refine h.own inv waits rfl rfl ?_
    intro x same
    refine ⟨(Option.some.inj same).symm, ?_⟩
    intro new slept
    cases slept
    exact SemAt.slept (h t w sem waits live) pc (fun blocked => retest_woken blocked live step)
      unavailable
  | delete t w pc =>
    refine h.own inv (w := w) (by rw [pc]; rfl) rfl rfl ?_
    intro x same
    cases same
  | issue t pc rest held target =>
    refine h.move rfl rfl ?_
    intro w waits
    rcases target with ⟨-, rfl, -⟩ | ⟨-, rfl⟩
    · cases waits
    · cases waits
  | signal t w rest atRest held front => exact h.signal
  | broadcast t w rest pc held front =>
    refine h.move rfl rfl ?_
    intro x waits
    cases waits
  | broadcastDone t pc empty =>
    refine h.move rfl rfl ?_
    intro x waits
    cases waits
  | v t w sem pc place live => exact h.v inv place live rfl rfl

theorem Slept.of_reachable [Fintype Thread] (h : (condMachine Thread).Reachable s) : s.Slept := by
  induction h with
  | init h =>
    cases h
    intro t w sem waits
    cases waits
  | step before _ h ih => exact ih.next (.of_reachable before) h

end CondState

section Condition

variable [Fintype Thread] {s : CondState Thread} {t : Thread}

omit [Fintype Thread] in
theorem SemState.test_empty {sem : SemState Thread} (t : Thread) (empty : sem.sem.queue = []) :
    ∃ after, sem.test t = some after := by
  by_cases value : sem.sem.value = 0
  · simp [SemState.test, Semaphore.P, value, empty, append]
  · simp [SemState.test, Semaphore.P, value]

omit [Fintype Thread] in
theorem CondState.waiterP_enabled {w : Nat} {sem after : SemState Thread} {e : SemEvent Thread}
    (live : s.waiters w = some sem) (step : SemState.next e sem = some after) :
    ∃ s', s.waiterP t w e = some s' := by
  simp [waiterP, live, step]

/-- The next step inside `Wait` or `Signal`, for a thread that is not asleep in it. -/
theorem CondState.step_enabled (h : (condMachine Thread).Reachable s)
    (inside : (s.pc t).waiter ≠ none ∨ (s.pc t).signalling ≠ none)
    (awake : ∀ w, s.pc t = .waitBlocked w → w ∉ s.waitQueue ∧ ∀ u, (s.pc u).signalling ≠ some w)
    (unlocked : ∀ w, s.pc t = .waitLock w →
      s.lock.pc t = .pastP ∨ s.lock.semaphore.phase t = .woken) :
    ∃ s', CondState.next (.step t) s = some s' := by
  have inv := CondInvariant.of_reachable h
  have slept := Slept.of_reachable h
  have lock : (lockMachine Thread).Reachable s.lock := (condLock Thread).reachable h
  have linv := LockInvariant.of_reachable lock
  have place := inv.place t
  have locked : ∀ e pc, (∃ after, LockState.next e s.lock = some after) →
      ∃ s', s.lockStep t e pc = some s' := by
    intro e pc ⟨after, step⟩
    exact ⟨_, Option.map_eq_some_iff.mpr ⟨after, step, rfl⟩⟩
  cases pc : s.pc t with
  | idle => simp [pc, CondPc.waiter, CondPc.signalling] at inside
  | broadcast => simp [pc, CondPc.waiter, CondPc.signalling] at inside
  | waitRelease w =>
    rw [pc] at place
    simpa only [CondState.next, stepThread, pc] using
      locked _ _ (LockState.release_enabled linv place.1 place.2)
  | waitUnlock w =>
    rw [pc] at place
    simpa only [CondState.next, stepThread, pc] using
      locked _ _ ⟨s.lock.freed t, by simp [LockState.next, place.1]⟩
  | waitP w =>
    obtain ⟨-, live⟩ := inv.owner t w (by simp [pc, CondPc.waiter])
    obtain ⟨sem, live⟩ := Option.isSome_iff_exists.mp live
    have at_w := slept t w sem (by simp [pc, CondPc.waiter]) live
    rw [pc] at at_w
    obtain ⟨after, test⟩ := SemState.test_empty t at_w.2
    have step : SemState.next (.p t) sem = some after := by
      simp [SemState.next, at_w.1, test]
    simpa only [CondState.next, stepThread, pc] using waiterP_enabled live step
  | waitBlocked w =>
    have waits : (s.pc t).waiter = some w := by simp [pc, CondPc.waiter]
    obtain ⟨sem, live, value⟩ := inv.passable t w waits (by simp [pc, CondPc.passed])
      (awake w pc).1 (awake w pc).2
    have at_w := slept t w sem waits live
    rw [pc] at at_w
    rcases at_w with ⟨-, -, zero⟩ | ⟨woken, empty, -⟩
    · rw [zero] at value
      exact absurd value (by decide)
    · obtain ⟨after, test⟩ := SemState.test_empty t empty
      have step : SemState.next (.retest t) sem = some after := by
        simp [SemState.next, woken, test]
      simpa only [CondState.next, stepThread, pc] using waiterP_enabled live step
  | waitAcquire w =>
    rw [pc] at place
    simpa only [CondState.next, stepThread, pc] using
      locked _ _ (LockState.acquire_enabled lock place.1)
  | waitLock w =>
    rcases unlocked w pc with passed | woken
    · simpa only [CondState.next, stepThread, pc, if_pos passed] using
        locked _ _ ⟨s.lock.assigned t, by simp [LockState.next, passed]⟩
    · have acquiring : s.lock.pc t ≠ .pastP := by
        rw [(linv.waiting t).mpr (by simp [woken])]
        simp
      simpa only [CondState.next, stepThread, pc, if_neg acquiring] using
        locked _ _ (LockState.retest_enabled lock woken)
  | waitDelete w => exact ⟨s.deleteWaiter t w, by simp only [CondState.next, stepThread, pc]⟩
  | signalV w =>
    obtain ⟨s', step, -⟩ := inv.signalling_step (t := t) (w := w) (by simp [pc, CondPc.signalling])
    exact ⟨s', step⟩
  | broadcastV w =>
    obtain ⟨s', step, -⟩ := inv.signalling_step (t := t) (w := w) (by simp [pc, CondPc.signalling])
    exact ⟨s', step⟩

end Condition

section List

variable [Fintype Thread] {Item : Type*} [DecidableEq Item] {s : SynchState Thread Item}
  {t : Thread}

namespace SynchState

omit [Fintype Thread] in
/-- A step inside the condition's or the lock's code. -/
theorem inner_enabled (busy : ¬ s.listEmpty.AtRest t)
    (step : ∃ after, CondState.next (.step t) s.listEmpty = some after) :
    ∃ s', SynchState.next (.step t) s = some s' := by
  obtain ⟨after, step⟩ := step
  simp [SynchState.next, busy, callCond, step]

omit [Fintype Thread] in
/-- A step of the lock's code in a call of the list on the lock. -/
theorem lock_enabled {e : LockEvent Thread} {after : LockState Thread}
    (outside : s.listEmpty.pc t = .idle) (continues : s.listEmpty.lock.continues t = some e)
    (step : LockState.next e s.listEmpty.lock = some after) :
    ∃ s', SynchState.next (.step t) s = some s' := by
  apply inner_enabled
  · intro rest
    simp [LockState.continues, rest.2] at continues
  · simp [CondState.next, CondState.stepThread, outside, continues, CondState.lockStep, step]

/-- A thread that holds the lock goes on: the assertions on the lock hold. -/
theorem inside_enabled (h : (synchMachine Thread Item).Reachable s)
    (fresh : ∀ item, s.pc t = .appendPut item → item ∉ s.list) (busy : s.pc t ≠ .idle)
    (rest : s.listEmpty.AtRest t) (inside : s.listEmpty.lock.inside t = true) :
    ∃ s', SynchState.next (.step t) s = some s' := by
  have inv := SynchInvariant.of_reachable h
  have cond : (condMachine Thread).Reachable s.listEmpty := (synchCond Thread Item).reachable h
  have cinv : CondInvariant s.listEmpty := .of_reachable cond
  have linv : LockInvariant s.listEmpty.lock := .of_reachable ((condLock Thread).reachable cond)
  have held : s.listEmpty.lock.isHeldByCurrentThread t = true :=
    LockState.isHeld_iff.mpr ((linv.holder t).mpr inside)
  have released : ∀ pc, ∃ s', s.callCond t (.release t) pc = some s' := by
    intro pc
    obtain ⟨after, step⟩ := LockState.release_enabled linv rest.2 inside
    simp [callCond, CondState.next, rest, CondState.lockStep, step]
  simp only [SynchState.next, if_pos rest, body]
  cases pc : s.pc t with
  | idle => exact absurd pc busy
  | appendPut item =>
    simp only [append_fresh (fresh item pc)]
    exact ⟨_, rfl⟩
  | appendSignal =>
    simp only [callCond, CondState.next, if_pos rest, CondState.signalBody, CondState.issue, held]
    cases s.listEmpty.waitQueue with
    | nil => exact ⟨_, rfl⟩
    | cons w waiting => exact ⟨_, rfl⟩
  | appendRelease => exact released _
  | removeTest =>
    simp only
    split
    next =>
      have new : s.listEmpty.nextWaiter ∉ s.listEmpty.waitQueue := by
        intro listed
        have known : s.listEmpty.nextWaiter ∈ s.listEmpty.enqueued := by
          rw [cinv.order]
          exact List.mem_append_right _ listed
        exact absurd (cinv.bound _ known).1 (Nat.lt_irrefl _)
      simp [callCond, CondState.next, rest, held, append_fresh new]
    next => exact ⟨_, rfl⟩
  | removeTake =>
    obtain ⟨item, list, front, -⟩ := inv.take_front pc
    simp only [front, removeFront]
    exact ⟨_, rfl⟩
  | removeRelease item => exact released _

omit [DecidableEq Thread] [Fintype Thread] [DecidableEq Item] in
/-- The calls on the condition that the list makes are `Wait` and `Signal`. -/
theorem place_inner {pc : SynchPc Item} {cond : CondPc} {lock : LockPc} {inside : Bool}
    (place : pc.At cond lock inside) (called : cond ≠ .idle) :
    cond.waiter ≠ none ∨ cond.signalling ≠ none := by
  cases pc with
  | idle | appendPut | appendSignal | removeTake | removeRelease => exact absurd place.1 called
  | appendRelease =>
    rcases place.1 with idle | ⟨w, rfl⟩
    · exact absurd idle called
    · exact .inr (by simp [CondPc.signalling])
  | removeTest =>
    rcases place with ⟨w, waits⟩ | ⟨idle, -⟩
    · exact .inl (by simp [waits])
    · exact absurd idle called

/-- The thread in the critical part goes on. -/
theorem critical_enabled (h : (synchMachine Thread Item).Reachable s)
    (fresh : ∀ item, s.pc t = .appendPut item → item ∉ s.list)
    (critical : s.listEmpty.lock.Critical t) : ∃ s', SynchState.next (.step t) s = some s' := by
  have cond : (condMachine Thread).Reachable s.listEmpty := (synchCond Thread Item).reachable h
  have cinv : CondInvariant s.listEmpty := .of_reachable cond
  have linv : LockInvariant s.listEmpty.lock := .of_reachable ((condLock Thread).reachable cond)
  have place := (SynchInvariant.of_reachable h).place t
  have at_cond := cinv.place t
  by_cases outside : s.listEmpty.pc t = .idle
  · rcases critical with passed | inside | releasing
    · obtain ⟨e, after, continues, step⟩ := LockState.continues_enabled (.inl passed)
      exact lock_enabled outside continues step
    · have busy : s.pc t ≠ .idle := by
        intro idle
        rw [idle] at place
        exact absurd inside (by simp [place.2.2])
      have rest : s.listEmpty.AtRest t := by
        refine ⟨outside, ?_⟩
        have settled := linv.settled t inside
        cases lock : s.listEmpty.lock.pc t with
        | idle => rfl
        | pastP => exact absurd lock settled.1
        | releasing => exact absurd lock settled.2
        | acquiring =>
          -- No call of the list takes the lock twice.
          rw [lock, inside, outside] at place
          cases pc : s.pc t <;> simp [pc, SynchPc.At, LockPc.Entering, CondPc.waiter] at place
      exact inside_enabled h fresh busy rest inside
    · obtain ⟨e, after, continues, step⟩ := LockState.continues_enabled (.inr releasing)
      exact lock_enabled outside continues step
  · have busy : ¬ s.listEmpty.AtRest t := by
      intro rest
      exact outside rest.1
    apply inner_enabled busy
    apply CondState.step_enabled cond (place_inner place outside)
    · intro w asleep
      rw [asleep] at at_cond
      simp [LockState.Critical, at_cond.1, at_cond.2] at critical
    · intro w entering
      rw [entering] at at_cond
      rcases critical with passed | inside | releasing
      · exact .inl passed
      · exact absurd inside (by simp [at_cond.2])
      · rcases at_cond.1 with acquiring | passed
        · cases acquiring.symm.trans releasing
        · exact .inl passed

/-- A thread that the lock woke tests it again. -/
theorem woken_enabled (h : (synchMachine Thread Item).Reachable s)
    (woken : s.listEmpty.lock.semaphore.phase t = .woken) :
    ∃ s', SynchState.next (.step t) s = some s' := by
  have cond : (condMachine Thread).Reachable s.listEmpty := (synchCond Thread Item).reachable h
  have lock : (lockMachine Thread).Reachable s.listEmpty.lock := (condLock Thread).reachable cond
  have place := (SynchInvariant.of_reachable h).place t
  have at_cond := (CondInvariant.of_reachable cond).place t
  have acquiring : s.listEmpty.lock.pc t = .acquiring :=
    ((LockInvariant.of_reachable lock).waiting t).mpr (by simp [woken])
  by_cases outside : s.listEmpty.pc t = .idle
  · obtain ⟨after, step⟩ := LockState.retest_enabled lock woken
    exact lock_enabled outside (by simp [LockState.continues, acquiring]) step
  · have busy : ¬ s.listEmpty.AtRest t := by
      intro rest
      exact outside rest.1
    apply inner_enabled busy
    apply CondState.step_enabled cond (place_inner place outside)
    · intro w asleep
      rw [asleep] at at_cond
      cases acquiring.symm.trans at_cond.1
    · intro w _
      exact .inr woken

/-- Inside `Append` or `RemoveFront`. -/
def Busy (s : SynchState Thread Item) (t : Thread) : Prop :=
  s.pc t ≠ .idle ∨ ¬ s.listEmpty.AtRest t

/-- Nobody can take a step: the lock is free, and nobody wants it. -/
theorem stuck_unlocked (h : (synchMachine Thread Item).Reachable s)
    (fresh : ∀ t item, s.pc t = .appendPut item → item ∉ s.list)
    (stuck : ∀ t, SynchState.next (.step t) s = none) (t : Thread) :
    s.listEmpty.lock.pc t = .idle ∧ s.listEmpty.lock.inside t = false := by
  have lock : (lockMachine Thread).Reachable s.listEmpty.lock :=
    (condLock Thread).reachable ((synchCond Thread Item).reachable h)
  have uncritical : ∀ u, ¬ s.listEmpty.lock.Critical u := by
    intro u critical
    obtain ⟨s', step⟩ := critical_enabled h (fresh u) critical
    cases (stuck u).symm.trans step
  have unwanted : ∀ u, s.listEmpty.lock.pc u ≠ .acquiring := by
    intro u acquiring
    obtain ⟨w, woken⟩ := LockState.free_woken lock uncritical acquiring
    obtain ⟨s', step⟩ := woken_enabled h woken
    cases (stuck w).symm.trans step
  have free := uncritical t
  unfold LockState.Critical at free
  push Not at free
  refine ⟨?_, by simpa using free.2.1⟩
  cases pc : s.listEmpty.lock.pc t with
  | idle => rfl
  | acquiring => exact absurd pc (unwanted t)
  | pastP => exact absurd pc free.1
  | releasing => exact absurd pc free.2.2

/-- A thread that is still inside waits on the condition, and was not signalled. -/
theorem stuck_asleep (h : (synchMachine Thread Item).Reachable s)
    (fresh : ∀ t item, s.pc t = .appendPut item → item ∉ s.list)
    (stuck : ∀ t, SynchState.next (.step t) s = none) (busy : s.Busy t) :
    s.pc t = .removeTest ∧ ∃ w ∈ s.listEmpty.waitQueue, s.listEmpty.pc t = .waitBlocked w := by
  have cond : (condMachine Thread).Reachable s.listEmpty := (synchCond Thread Item).reachable h
  have cinv := CondInvariant.of_reachable cond
  have place := (SynchInvariant.of_reachable h).place t
  have at_cond := cinv.place t
  obtain ⟨lock, inside⟩ := stuck_unlocked h fresh stuck t
  have unsignalled : ∀ u w, (s.listEmpty.pc u).signalling ≠ some w := by
    intro u w signalling
    have holds := cinv.inside_of_signalling signalling
    rw [(stuck_unlocked h fresh stuck u).2] at holds
    cases holds
  rw [lock, inside] at place at_cond
  have test : s.pc t = .removeTest ∧ ∃ w, (s.listEmpty.pc t).waiter = some w := by
    cases pc : s.pc t with
    | idle =>
      rw [pc] at place
      rcases busy with other | other
      · exact absurd pc other
      · exact absurd ⟨place.1, lock⟩ other
    | removeTest =>
      rw [pc] at place
      rcases place with waits | ⟨-, entering⟩
      · exact ⟨rfl, waits⟩
      · simp [LockPc.Entering] at entering
    | appendPut | appendSignal | appendRelease | removeTake | removeRelease =>
      simp [pc, SynchPc.At, LockPc.Entering] at place
  obtain ⟨test, w, waits⟩ := test
  refine ⟨test, ?_⟩
  have outside : s.listEmpty.pc t ≠ .idle := by
    intro idle
    simp [idle, CondPc.waiter] at waits
  have blocked : ¬ ∃ after, CondState.next (.step t) s.listEmpty = some after := by
    intro step
    obtain ⟨s', step⟩ := inner_enabled (fun rest => outside rest.1) step
    cases (stuck t).symm.trans step
  by_contra awake
  push Not at awake
  apply blocked
  apply CondState.step_enabled cond (.inl (by simp [waits]))
  · intro x asleep
    exact ⟨fun listed => awake x listed asleep, fun u => unsignalled u x⟩
  · intro x entering
    rw [entering] at at_cond
    simp [CondPc.LockAt] at at_cond

/-- The list is empty while somebody is asleep and nobody goes on. -/
theorem stuck_empty (h : (synchMachine Thread Item).Reachable s)
    (fresh : ∀ t item, s.pc t = .appendPut item → item ∉ s.list)
    (stuck : ∀ t, SynchState.next (.step t) s = none) (busy : s.Busy t) : s.list = [] := by
  obtain ⟨-, w, queued, -⟩ := stuck_asleep h fresh stuck busy
  have served := (SynchInvariant.of_reachable h).served (List.ne_nil_of_mem queued)
  have nobody : ∀ u, ¬ s.Serves u := by
    intro u serves
    rcases serves with ⟨critical, -⟩ | ⟨-, x, waits, released⟩
    · obtain ⟨lock, inside⟩ := stuck_unlocked h fresh stuck u
      simp [LockState.Critical, lock, inside] at critical
    · have busy : s.Busy u := by
        right
        intro rest
        rw [rest.1] at waits
        cases waits
      obtain ⟨-, y, queued, asleep⟩ := stuck_asleep h fresh stuck busy
      rw [asleep] at waits
      cases waits
      exact released queued
  have zero : count s.Serves = 0 := by simp [count, nobody]
  rw [zero] at served
  exact List.length_eq_zero_iff.mp (Nat.le_zero.mp served)

end SynchState

/-- As long as somebody is inside `Append` or `RemoveFront`, somebody goes on, unless those
inside are all asleep in `RemoveFront` and the list is empty. -/
theorem synchList_goes_on (s : SynchState Thread Item) (h : (synchMachine Thread Item).Reachable s)
    (fresh : ∀ t item, s.pc t = .appendPut item → item ∉ s.list) (t : Thread) (busy : s.Busy t) :
    (∃ u s', SynchState.next (.step u) s = some s') ∨
    (s.list = [] ∧ ∀ u, s.Busy u → s.pc u = .removeTest ∧
      ∃ w ∈ s.listEmpty.waitQueue, s.listEmpty.pc u = .waitBlocked w) := by
  by_cases goes : ∃ u s', SynchState.next (.step u) s = some s'
  · exact .inl goes
  have stuck : ∀ u, SynchState.next (.step u) s = none := by
    intro u
    by_contra step
    obtain ⟨s', step⟩ := Option.ne_none_iff_exists'.mp step
    exact goes ⟨u, s', step⟩
  refine .inr ⟨SynchState.stuck_empty h fresh stuck busy, ?_⟩
  intro u busy
  exact SynchState.stuck_asleep h fresh stuck busy

end List

end Machine

/-- Thread 1 was signalled and took the item; thread 2 sleeps on. -/
theorem synchList_goes_on_asleep :
    ∃ s, (synchMachine (Fin 3) Nat).run (appendedRun ++ List.replicate 8 (.step 1)) .initial =
        some s ∧ s.removed = [7] ∧ s.pc 2 = .removeTest ∧
      ∃ w ∈ s.listEmpty.waitQueue, s.listEmpty.pc 2 = .waitBlocked w := by
  have replay : ((synchMachine (Fin 3) Nat).run (appendedRun ++ List.replicate 8 (.step 1))
      .initial).map (fun s => (s.list, s.removed, decide (s.pc 2 = .idle),
        decide (∀ t, (SynchState.next (.step t) s).isNone))) = some ([], [7], false, true) := by
    decide +kernel
  obtain ⟨s, hs, view⟩ := Option.map_eq_some_iff.mp replay
  simp only [Prod.mk.injEq, decide_eq_false_iff_not, decide_eq_true_eq] at view
  obtain ⟨list, removed, busy, stuck⟩ := view
  have reached : (synchMachine (Fin 3) Nat).Reachable s :=
    (Machine.Reachable.init (M := synchMachine (Fin 3) Nat) rfl).run _ hs
  rcases synchList_goes_on s reached (by simp [list]) 2 (.inl busy) with ⟨u, s', step⟩ | asleep
  · have none := stuck u
    rw [step] at none
    cases none
  · exact ⟨s, hs, removed, asleep.2 2 (.inl busy)⟩

section Driver

variable {Thread Request Reply Device : Type} [DecidableEq Thread]
  {perform : Request → Device → Option (Reply × Device)} {marks : Bool} {original : Device}
  {s s' : Driver Thread Request Reply Device} {t : Thread}

variable (perform marks original) in
/-- The completion semaphore of a driver is run as a semaphore of initial value 0. -/
def driverCompletion :
    Machine.Projection
      (driverMachine perform marks original :
        Machine (Driver Thread Request Reply Device) (DriverEvent Thread Request))
      (semMachine Thread 0) where
  abs s := s.exchange.completion
  init := by
    intro s h
    rw [h]
    rfl
  step := by
    intro e s s' h
    cases Driver.next_effect h with
    | lock | issue | returns => exact .inl rfl
    | wait t serial call exchange pc rest wait =>
      obtain ⟨sem, pass, rfl⟩ := Option.map_eq_some_iff.mp wait
      exact .inr (SemState.pass_next pass)
    | interrupt serial pending => exact .inr ⟨.v, rfl⟩

namespace Driver

/-- Whoever is inside `P` waits for a request. -/
def OwnersWait (s : Driver Thread Request Reply Device) : Prop :=
  ∀ t, s.exchange.completion.phase t ≠ .running → s.exchange.waiting t ≠ none

theorem OwnersWait.wait (h : s.OwnersWait) {serial : Nat} {call : Call Thread Request Reply}
    {exchange : Exchange Thread} (waits : s.exchange.waiting t = some serial)
    (wait : s.exchange.wait t = some exchange) : (s.waited t serial call exchange).OwnersWait := by
  intro u inside
  by_cases hu : u = t
  · subst hu
    rcases Exchange.wait_cases wait with ⟨-, rfl⟩ | ⟨-, rfl⟩
    · simp [waited, Exchange.passed, SemState.consumed] at inside
    · simp [waited, Exchange.slept, waits]
  · rcases Exchange.wait_cases wait with ⟨-, rfl⟩ | ⟨-, rfl⟩
    · simp only [waited, Exchange.passed, SemState.consumed, Function.update_of_ne hu] at inside ⊢
      exact h u inside
    · simp only [waited, Exchange.slept, SemState.slept, Function.update_of_ne hu] at inside ⊢
      exact h u inside

theorem OwnersWait.next (h : s.OwnersWait) (inv : DriverInvariant perform original s)
    (sem : ∀ u, u ∈ s.exchange.completion.sem.queue → s.exchange.completion.phase u = .queued)
    (step : s.Effect perform marks s') : s'.OwnersWait := by
  cases step with
  | lock | returns => exact h
  | issue call device pc rest performed =>
    intro u inside
    by_cases hu : u = call.thread
    · simp [issued, Exchange.requested, hu]
    · simp only [issued, Exchange.requested, Function.update_of_ne hu]
      exact h u inside
  | wait t serial call exchange pc rest wait =>
    have place := inv.place t
    rw [pc] at place
    exact h.wait place.2.2 wait
  | interrupt serial pending =>
    intro u inside
    exact h u ((SemState.signal_running sem).mp inside)

variable [Fintype Thread]

theorem completion_sem (h : (driverMachine perform marks original).Reachable s) :
    SemInvariant 0 s.exchange.completion := by
  refine .of_reachable le_rfl (by decide)
    ((driverCompletion perform marks original).reachableUnder ?_ h)
  intro s reached
  have bounds := (DriverInvariant.of_reachable reached).1.exchange.bounds.2
  exact SemEvent.fits_of_lt (s := s.exchange.completion) (by omega)

theorem OwnersWait.of_reachable (h : (driverMachine perform marks original).Reachable s) :
    s.OwnersWait := by
  induction h with
  | init h =>
    intro t inside
    rw [h] at inside
    exact absurd rfl inside
  | step before _ h ih =>
    refine ih.next (DriverInvariant.of_reachable before).1 ?_ (next_effect h)
    intro u queued
    exact ((completion_sem before).queued_iff u).mp queued

omit [Fintype Thread] in
/-- A step of the lock's code. -/
theorem lock_enabled {e : LockEvent Thread} {after : LockState Thread}
    (continues : s.lock.continues t = some e) (step : LockState.next e s.lock = some after) :
    ∃ s', s.step perform marks (.step t) = some (.ok s') := by
  have busy := LockState.continues_busy continues
  simp [Driver.step, busy, continues, callLock, step]

/-- A thread whose interrupt has come returns from `P`. -/
theorem wait_enabled (h : (driverMachine perform marks original).Reachable s) {serial : Nat}
    (waits : s.exchange.waiting t = some serial) (quiet : s.exchange.pending = []) :
    ∃ exchange, s.exchange.wait t = some exchange := by
  have inv := (DriverInvariant.of_reachable h).1
  have sem := completion_sem h
  have value : s.exchange.completion.sem.value = 1 := by
    rcases inv.exchange.outstanding t serial waits with ⟨pending, -⟩ | ⟨-, -, value, -⟩
    · rw [quiet] at pending
      cases pending
    · exact value
  have awake : s.exchange.completion.phase t ≠ .queued := by
    intro queued
    have unslept := sem.no_lost_wakeup (List.ne_nil_of_mem ((sem.queued_iff t).mpr queued))
    have none : ∀ u, s.exchange.completion.phase u ≠ .woken := by
      intro u woken
      have also := OwnersWait.of_reachable h u (by simp [woken])
      obtain rfl := inv.exchange.only u t also (by simp [waits])
      cases queued.symm.trans woken
    have zero : s.exchange.completion.wokenCount = 0 := by simp [SemState.wokenCount, count, none]
    rw [value, zero] at unslept
    exact absurd unslept (by decide)
  have pass := SemState.pass_available awake (by simp [value])
  simp [Exchange.wait, pass]

/-- A thread that holds the lock goes on, once its interrupt has come. -/
theorem inside_enabled (h : (driverMachine perform marks original).Reachable s)
    (valid : ∀ request, s.pc t = .acquiring request → perform request s.device ≠ none)
    (quiet : s.exchange.pending = []) (rest : s.lock.pc t = .idle)
    (inside : s.lock.inside t = true) :
    ∃ s', s.step perform marks (.step t) = some (.ok s') := by
  obtain ⟨inv, linv⟩ := DriverInvariant.of_reachable h
  have place := inv.place t
  simp only [Driver.step, if_pos rest, body]
  cases pc : s.pc t with
  | idle =>
    rw [pc] at place
    exact absurd inside (by simp [place.2.1])
  | returning serial call =>
    rw [pc] at place
    exact absurd inside (by simp [place.2.1])
  | acquiring request =>
    have free := (inv.exchange.atRest (inv.alone linv pc rest)).1
    obtain ⟨⟨reply, device⟩, performed⟩ := Option.ne_none_iff_exists'.mp (valid request pc)
    simp only [issue, Exchange.request, free, Bool.false_eq_true, if_false, Exec.ok_bind, performed]
    exact ⟨_, rfl⟩
  | waiting serial call =>
    rw [pc] at place
    obtain ⟨exchange, wait⟩ := wait_enabled h place.2.2 quiet
    simp [wait]
  | releasing serial call =>
    obtain ⟨after, step⟩ := LockState.release_enabled linv rest inside
    simp [callLock, step]

end Driver

variable [Fintype Thread]

/-- Nobody can take a step, and no interrupt is to come. -/
theorem Driver.stuck_idle (h : (driverMachine perform marks original).Reachable s)
    (valid : ∀ t request, s.pc t = .acquiring request → perform request s.device ≠ none)
    (stuck : ∀ t s', s.step perform marks (.step t) ≠ some (.ok s'))
    (quiet : s.exchange.pending = []) (t : Thread) : s.pc t = .idle := by
  obtain ⟨inv, linv⟩ := DriverInvariant.of_reachable h
  have lock : (lockMachine Thread).Reachable s.lock :=
    (driverLock perform marks original).reachable h
  have stopped : ∀ u, ¬ ∃ s', s.step perform marks (.step u) = some (.ok s') := by
    intro u ⟨s', step⟩
    exact stuck u s' step
  have uncritical : ∀ u, ¬ s.lock.Critical u := by
    intro u critical
    apply stopped u
    rcases critical with passed | inside | releasing
    · obtain ⟨e, after, continues, step⟩ := LockState.continues_enabled (.inl passed)
      exact Driver.lock_enabled continues step
    · cases pc : s.lock.pc u with
      | idle => exact Driver.inside_enabled h (valid u) quiet pc inside
      | pastP => exact absurd pc (linv.settled u inside).1
      | releasing => exact absurd pc (linv.settled u inside).2
      | acquiring =>
        -- No driver takes the lock twice.
        have place := inv.place u
        rw [pc, inside] at place
        cases at_u : s.pc u <;> simp [at_u, DriverPc.At, LockPc.Entering] at place
    · obtain ⟨e, after, continues, step⟩ := LockState.continues_enabled (.inr releasing)
      exact Driver.lock_enabled continues step
  have unwanted : ∀ u, s.lock.pc u ≠ .acquiring := by
    intro u acquiring
    obtain ⟨w, woken⟩ := LockState.free_woken lock uncritical acquiring
    obtain ⟨after, step⟩ := LockState.retest_enabled lock woken
    have continues : s.lock.continues w = some (.retest w) := by
      simp [LockState.continues, (linv.waiting w).mpr (by simp [woken])]
    exact stopped w (Driver.lock_enabled continues step)
  have place := inv.place t
  have free := uncritical t
  unfold LockState.Critical at free
  push Not at free
  obtain ⟨passed, inside, releasing⟩ := free
  cases pc : s.pc t with
  | idle => rfl
  | acquiring request =>
    rw [pc] at place
    rcases place.1 with ⟨acquiring | past, -⟩ | ⟨-, held⟩
    · exact absurd acquiring (unwanted t)
    · exact absurd past passed
    · exact absurd held inside
  | waiting serial call =>
    rw [pc] at place
    exact absurd place.2.1 inside
  | releasing serial call =>
    rw [pc] at place
    exact absurd place.2.1 inside
  | returning serial call =>
    rw [pc] at place
    rcases place.1 with rest | left
    · exact absurd ⟨_, by simp [Driver.step, rest, Driver.body, pc]; rfl⟩ (stopped t)
    · exact absurd left releasing

/-- As long as somebody is inside a call of a driver, somebody goes on or an interrupt is to
come, for requests that pass the assertions of the device. -/
theorem driver_goes_on (s : Driver Thread Request Reply Device)
    (h : (driverMachine perform marks original).Reachable s)
    (valid : ∀ t request, s.pc t = .acquiring request → perform request s.device ≠ none)
    (t : Thread) (busy : s.pc t ≠ .idle) :
    (∃ u s', s.step perform marks (.step u) = some (.ok s')) ∨
    (∃ serial s', s.step perform marks (.interrupt serial) = some (.ok s')) := by
  by_cases goes : ∃ u s', s.step perform marks (.step u) = some (.ok s')
  · exact .inl goes
  right
  cases pending : s.exchange.pending with
  | nil =>
    have idle := Driver.stuck_idle h valid (fun u s' step => goes ⟨u, s', step⟩) pending t
    exact absurd idle busy
  | cons serial rest =>
    refine ⟨serial, { s with exchange := s.exchange.interrupted serial }, ?_⟩
    simp [Driver.step, Exchange.interrupt, pending]

end Driver

end NachOS.Threads

namespace NachOS.Filesys
open NachOS.Lib NachOS.Threads

/-- The sector is one that the disk has. -/
def DiskRequest.Valid : DiskRequest → Prop
  | read sectorNumber => Disk.ValidSector sectorNumber
  | write sectorNumber _ => Disk.ValidSector sectorNumber

theorem DiskRequest.Valid.perform {request : DiskRequest} (valid : request.Valid) (file : Buf) :
    request.perform file ≠ none := by
  cases request with
  | read sectorNumber =>
    have valid : Disk.ValidSector sectorNumber := valid
    simp [DiskRequest.perform, readRequest, valid]
  | write sectorNumber data =>
    have valid : Disk.ValidSector sectorNumber := valid
    simp [DiskRequest.perform, writeRequest, valid]

/-- As long as a thread is inside `ReadSector` or `WriteSector`, some thread can go on or the
disk's interrupt is to come. -/
theorem synchDisk_goes_on {Thread : Type} [DecidableEq Thread] [Fintype Thread] (original : Buf)
    (s : SynchDisk Thread) (h : (synchDiskMachine Thread original).Reachable s)
    (valid : ∀ t request, s.pc t = .acquiring request → request.Valid) (t : Thread)
    (busy : s.pc t ≠ .idle) :
    (∃ u s', SynchDisk.step (.step u) s = some (.ok s')) ∨
    (∃ serial s', SynchDisk.step (.interrupt serial) s = some (.ok s')) :=
  driver_goes_on s h (fun u request pc => (valid u request pc).perform s.device) t busy

/-- Thread 1 wants the lock that thread 0 holds, and both wait for the disk. -/
theorem synchDisk_goes_on_interrupt :
    ∃ s, (synchDiskMachine (Fin 2) fun _ => 0).run ((writeThenRead 0 1).take 5)
        (.initial fun _ => 0) = some s ∧
      ((∃ u s', SynchDisk.step (.step u) s = some (.ok s')) ∨
        (∃ serial s', SynchDisk.step (.interrupt serial) s = some (.ok s'))) := by
  have replay : ((synchDiskMachine (Fin 2) fun _ => 0).run ((writeThenRead 0 1).take 5)
      (.initial fun _ => 0)).map (fun s => (s.pc 0, s.pc 1)) =
      some (.waiting 0 ⟨0, .write 3 fun _ => 0x41, none⟩, .acquiring (.read 3)) := by
    decide +kernel
  obtain ⟨s, hs, view⟩ := Option.map_eq_some_iff.mp replay
  obtain ⟨first, second⟩ := Prod.mk.inj view
  have reached : (synchDiskMachine (Fin 2) fun _ => 0).Reachable s :=
    (Machine.Reachable.init (M := synchDiskMachine (Fin 2) fun _ => 0) rfl).run _ hs
  refine ⟨s, hs, synchDisk_goes_on _ s reached ?_ 1 (by simp [second])⟩
  intro t request pc
  have two : t = 0 ∨ t = 1 := by omega
  rcases two with rfl | rfl
  · rw [first] at pc
    cases pc
  · rw [second] at pc
    cases pc
    change Disk.ValidSector 3
    decide

end NachOS.Filesys
