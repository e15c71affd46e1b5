import NachOS.Lib.Machine
import NachOS.Lib.Memory
import NachOS.Machine.Interrupt
import NachOS.Threads.Semaphore

/-!
# Scheduling (threads/scheduler.cc, threads/thread.cc, threads/synch.cc, machine/interrupt.cc)

One processor, any number of threads. Simulated time advances, and interrupt
handlers run, only in `Interrupt::OneTick` and in `Interrupt::Idle`; between two
such points the kernel is sequential. The places at which something else can be
decided (which interrupts are due, what the running thread does next) are the
values of `Control`, and each routine runs from one of them to the next.

A thread that gave up the processor continues where its stack says: `Frame` is
that continuation. Each of them only restores an interrupt level after the
`SWITCH` returns, or tests a semaphore again, so one frame for each thread is
enough, also where `OneTick`, `Yield` and `SetLevel` call each other.

Every `ASSERT` of the routines is a `check`, and so is the use of a `Thread` that
was deleted. Left out: the stack fencepost, the user registers that `Run` saves
(they are in `NachOS.Machine`), the simulated clock and the machine mode, which
only decide what is due, and any use of the host's memory.
-/
namespace NachOS.Threads
open NachOS.Lib NachOS.Library

inductive ThreadStatus where
  | justCreated
  | running
  | ready
  | blocked
  deriving DecidableEq

/-- Where a thread continues when it is switched in. -/
inductive Frame where
  /-- `ThreadRoot`, which calls `Begin` first. -/
  | fresh
  /-- `Run` in `Yield`, which returns to a caller at this interrupt level. -/
  | yield (oldLevel : IntStatus)
  /-- `Run` in `Sleep` in the loop of `P`, with the locals of `P`. -/
  | p (semaphore : Nat) (currentThread : Nat) (oldLevel : IntStatus)
  /-- `Run` in `Sleep` in `Finish`. -/
  | finish
  deriving DecidableEq

/-- Where the code on the processor stands. -/
inductive Control where
  /-- In the code of the current thread, outside of the routines modelled here. -/
  | body
  /-- At the start of `OneTick`. -/
  | tick
  /-- In `OneTick` with interrupts enabled again, before the test of `yieldOnReturn`. -/
  | tickReturn
  /-- At the test of the loop in `Sleep`. -/
  | sleeping (finishing : Bool)
  /-- In the body of that loop: calling `Idle`. -/
  | idle (finishing : Bool)
  /-- `SWITCH` has loaded the registers of the current thread. -/
  | switched
  deriving DecidableEq

structure Kernel where
  level : IntStatus
  inHandler : Bool
  yieldOnReturn : Bool
  currentThread : Nat
  /-- The status of each `Thread` object; `none` before it is allocated and
  after it is deleted. -/
  status : Nat → Option ThreadStatus
  readyList : List Nat
  toBeDestroyed : Option Nat
  semaphore : Nat → Semaphore Nat
  frame : Nat → Frame
  /-- Threads are numbered in the order of their allocation. -/
  allocated : Nat
  control : Control

/-- What an interrupt handler does to the scheduler. -/
inductive HandlerCall where
  | v (semaphore : Nat)
  | yieldOnReturn
  deriving DecidableEq

namespace Kernel

/-- `Thread::setStatus`. -/
def setStatus (k : Kernel) (thread : Nat) (st : ThreadStatus) : Exec Kernel := do
  check ((k.status thread).isSome) .outOfBounds
  .ok { k with status := Function.update k.status thread (some st) }

/-- `Scheduler::ReadyToRun`. -/
def readyToRun (k : Kernel) (thread : Nat) : Exec Kernel := do
  check (k.level = .off) .assertion
  let k ← k.setStatus thread .ready
  match append k.readyList thread with
  | none => .error .assertion
  | some readyList => .ok { k with readyList }

/-- `Scheduler::FindNextToRun`. -/
def findNextToRun (k : Kernel) : Exec (Option Nat × Kernel) := do
  check (k.level = .off) .assertion
  match removeFront k.readyList with
  | none => .ok (none, k)
  | some (thread, readyList) => .ok (some thread, { k with readyList })

/-- `Scheduler::Run`, up to the `SWITCH`. -/
def run (k : Kernel) (nextThread : Nat) (finishing : Bool) : Exec Kernel := do
  let oldThread := k.currentThread
  check (k.level = .off) .assertion
  let k ←
    if finishing then do
      check (k.toBeDestroyed = none) .assertion
      .ok { k with toBeDestroyed := some oldThread }
    else .ok k
  let k := { k with currentThread := nextThread }
  let k ← k.setStatus nextThread .running
  .ok { k with control := .switched }

/-- `Scheduler::CheckToBeDestroyed`, with the assertion of the destructor. -/
def checkToBeDestroyed (k : Kernel) : Exec Kernel :=
  match k.toBeDestroyed with
  | none => .ok k
  | some thread => do
    check ((k.status thread).isSome) .outOfBounds
    check (thread ≠ k.currentThread) .assertion
    .ok { k with status := Function.update k.status thread none, toBeDestroyed := none }

/-- `Interrupt::SetLevel`, up to the call of `OneTick` if there is one. -/
def setLevel (k : Kernel) (now : IntStatus) : Exec Kernel := do
  check (now = .off ∨ k.inHandler = false) .assertion
  let old := k.level
  let k := { k with level := now }
  if now = .on ∧ old = .off then .ok { k with control := .tick } else .ok k

/-- `Interrupt::YieldOnReturn`. -/
def setYieldOnReturn (k : Kernel) : Exec Kernel := do
  check (k.inHandler = true) .assertion
  .ok { k with yieldOnReturn := true }

/-- `Semaphore::V`. -/
def v (k : Kernel) (i : Nat) : Exec Kernel := do
  let oldLevel := k.level
  let k ← k.setLevel .off
  let (waiter, semaphore) := (k.semaphore i).V
  let k ←
    match waiter with
    | none => .ok k
    | some thread => k.readyToRun thread
  let k := { k with semaphore := Function.update k.semaphore i semaphore }
  k.setLevel oldLevel

def handle (k : Kernel) : HandlerCall → Exec Kernel
  | .v i => k.v i
  | .yieldOnReturn => k.setYieldOnReturn

/-- The handlers of the due interrupts, one after the other. -/
def handleAll (k : Kernel) : List HandlerCall → Exec Kernel
  | [] => .ok k
  | call :: calls => do
    let k ← k.handle call
    k.handleAll calls

/-- `Interrupt::CheckIfDue`: `none` when no interrupt is due, else what the
handlers of the due ones do. -/
def checkIfDue (k : Kernel) (due : Option (List HandlerCall)) : Exec (Bool × Kernel) := do
  check (k.level = .off) .assertion
  match due with
  | none => .ok (false, k)
  | some calls => do
    let k ← { k with inHandler := true }.handleAll calls
    .ok (true, { k with inHandler := false })

/-- `Thread::Yield`. -/
def yield (k : Kernel) (this : Nat) : Exec Kernel := do
  let oldLevel := k.level
  let k ← k.setLevel .off
  check (this = k.currentThread) .assertion
  let (nextThread, k) ← k.findNextToRun
  match nextThread with
  | none => k.setLevel oldLevel
  | some nextThread => do
    let k ← k.readyToRun this
    let k := { k with frame := Function.update k.frame k.currentThread (.yield oldLevel) }
    k.run nextThread false

/-- `Thread::Sleep`, up to the loop. -/
def sleep (k : Kernel) (this : Nat) (finishing : Bool) : Exec Kernel := do
  check (this = k.currentThread) .assertion
  check (k.level = .off) .assertion
  let k ← k.setStatus this .blocked
  .ok { k with control := .sleeping finishing }

/-- The loop of `Semaphore::P` and what follows it. -/
def pLoop (k : Kernel) (i currentThread : Nat) (oldLevel : IntStatus) : Exec Kernel :=
  match (k.semaphore i).P currentThread with
  | none => .error .assertion
  | some (true, semaphore) =>
    { k with semaphore := Function.update k.semaphore i semaphore }.setLevel oldLevel
  | some (false, semaphore) =>
    { k with
      semaphore := Function.update k.semaphore i semaphore
      frame := Function.update k.frame k.currentThread (.p i currentThread oldLevel)
      }.sleep currentThread false

/-- `Semaphore::P`. -/
def p (k : Kernel) (i : Nat) : Exec Kernel := do
  let currentThread := k.currentThread
  let oldLevel := k.level
  let k ← k.setLevel .off
  k.pLoop i currentThread oldLevel

/-- `Thread::Finish`. -/
def finish (k : Kernel) (this : Nat) : Exec Kernel := do
  let k ← k.setLevel .off
  check (this = k.currentThread) .assertion
  { k with frame := Function.update k.frame k.currentThread .finish }.sleep this true

/-- `Thread::Begin`. -/
def begin (k : Kernel) (this : Nat) : Exec Kernel := do
  check (this = k.currentThread) .assertion
  let k ← k.checkToBeDestroyed
  k.setLevel .on

/-- `Thread::Fork`. -/
def fork (k : Kernel) (this : Nat) : Exec Kernel := do
  let k := { k with frame := Function.update k.frame this .fresh }
  let oldLevel := k.level
  let k ← k.setLevel .off
  let k ← k.readyToRun this
  k.setLevel oldLevel

/-- `new Thread`. -/
def newThread (k : Kernel) : Kernel :=
  { k with
    status := Function.update k.status k.allocated (some .justCreated)
    allocated := k.allocated + 1 }

/-- `Interrupt::OneTick`, up to the test of `yieldOnReturn`. -/
def oneTick (k : Kernel) (due : Option (List HandlerCall)) : Exec Kernel := do
  let k := { k with level := .off }
  let (_, k) ← k.checkIfDue due
  .ok { k with level := .on, control := .tickReturn }

/-- The rest of `Interrupt::OneTick`. -/
def oneTickReturn (k : Kernel) : Exec Kernel :=
  let k := { k with control := .body }
  if k.yieldOnReturn then { k with yieldOnReturn := false }.yield k.currentThread else .ok k

/-- One pass of the loop in `Thread::Sleep`, up to the call of `Idle`. -/
def dispatch (k : Kernel) (finishing : Bool) : Exec Kernel := do
  let (nextThread, k) ← k.findNextToRun
  match nextThread with
  | none => .ok { k with control := .idle finishing }
  | some nextThread => k.run nextThread finishing

/-- `Interrupt::Idle`; without a pending interrupt it halts the machine. -/
def idle (k : Kernel) (due : Option (List HandlerCall)) (finishing : Bool) : Exec Kernel := do
  let (fired, k) ← k.checkIfDue due
  if fired then .ok { k with control := .sleeping finishing } else .error .halted

/-- The rest of `Scheduler::Run` after the `SWITCH`. -/
def switchedBack (k : Kernel) : Exec Kernel := do
  check (k.level = .off) .assertion
  k.checkToBeDestroyed

/-- The thread that was switched in goes on. -/
def resume (k : Kernel) : Exec Kernel :=
  let k := { k with control := .body }
  match k.frame k.currentThread with
  | .fresh => k.begin k.currentThread
  | .yield oldLevel => do
    let k ← k.switchedBack
    k.setLevel oldLevel
  | .p i currentThread oldLevel => do
    let k ← k.switchedBack
    k.pLoop i currentThread oldLevel
  -- The code after the call of `Sleep` in `Finish` is marked as not reached.
  | .finish => .error .assertion

end Kernel

inductive KernelEvent where
  | newThread
  | fork (thread : Nat)
  | yield
  | p (semaphore : Nat)
  | v (semaphore : Nat)
  | finish
  | setLevel (now : IntStatus)
  /-- A user instruction was executed: `Machine::Run` calls `OneTick`. -/
  | instruction
  | tick (due : Option (List HandlerCall))
  | tickReturn
  | dispatch
  | idle (due : Option (List HandlerCall))
  | resume
  deriving DecidableEq

namespace Kernel

/-- `none` when the event cannot happen here. The first group is what the current
thread may call; every caller forks a `Thread` that it has just created, once. -/
def step : KernelEvent → Kernel → Option (Exec Kernel)
  | .newThread, k => if k.control = .body then some (.ok k.newThread) else none
  | .fork thread, k =>
    if k.control = .body ∧ k.status thread = some .justCreated then some (k.fork thread) else none
  | .yield, k => if k.control = .body then some (k.yield k.currentThread) else none
  | .p i, k => if k.control = .body then some (k.p i) else none
  | .v i, k => if k.control = .body then some (k.v i) else none
  | .finish, k => if k.control = .body then some (k.finish k.currentThread) else none
  | .setLevel now, k => if k.control = .body then some (k.setLevel now) else none
  | .instruction, k =>
    if k.control = .body then some (.ok { k with control := .tick }) else none
  | .tick due, k => if k.control = .tick then some (k.oneTick due) else none
  | .tickReturn, k => if k.control = .tickReturn then some k.oneTickReturn else none
  | .dispatch, k =>
    match k.control with
    | .sleeping finishing => some (k.dispatch finishing)
    | _ => none
  | .idle due, k =>
    match k.control with
    | .idle finishing => some (k.idle due finishing)
    | _ => none
  | .resume, k => if k.control = .switched then some k.resume else none

/-- The state in which `Kernel::Initialize` has created the main thread and the
scheduler; the semaphores are created with any initial values. -/
def initial (initialValue : Nat → Int) : Kernel where
  level := .off
  inHandler := false
  yieldOnReturn := false
  currentThread := 0
  status := Function.update (fun _ => none) 0 (some .running)
  readyList := []
  toBeDestroyed := none
  semaphore := fun i => .new (initialValue i)
  frame := fun _ => .fresh
  allocated := 1
  control := .body

end Kernel

/-- All runs of the thread routines; a failed assertion has no successor. -/
def schedulerMachine : Machine Kernel KernelEvent where
  init k := ∃ initialValue, k = .initial initialValue
  next e k := (k.step e).bind Except.toOption

namespace Kernel

variable {k k' : Kernel} {t : Nat}

/-- The part of the invariant that no control point suspends. -/
structure Core (k : Kernel) : Prop where
  ready : ∀ t, k.status t = some .ready ↔ t ∈ k.readyList
  nodup : k.readyList.Nodup
  queued : ∀ i t, t ∈ (k.semaphore i).queue →
    k.status t = some .blocked ∧ ∃ oldLevel, k.frame t = .p i t oldLevel
  queueNodup : ∀ i, (k.semaphore i).queue.Nodup
  own : ∀ t i u oldLevel, k.frame t = .p i u oldLevel → u = t
  restartable : ∀ t, k.status t = some .ready → k.frame t ≠ .finish
  unallocated : ∀ t, k.allocated ≤ t → k.status t = none

/-- The current thread, and only it, is running. -/
def Executing (k : Kernel) : Prop :=
  ∀ t, k.status t = some .running ↔ t = k.currentThread

/-- The current thread is in `Sleep`: it may have been woken while it idles, but
not if it is finishing. -/
structure Asleep (k : Kernel) (finishing : Bool) : Prop where
  none_running : ∀ t, k.status t ≠ some .running
  finishes : finishing = true →
    k.status k.currentThread = some .blocked ∧ k.frame k.currentThread = .finish
  returns : finishing = false →
    (k.status k.currentThread = some .blocked ∨ k.status k.currentThread = some .ready) ∧
      k.frame k.currentThread ≠ .finish

def Situation (k : Kernel) : Prop :=
  match k.control with
  | .body | .tick | .tickReturn => k.Executing ∧ k.toBeDestroyed = none
  | .sleeping finishing | .idle finishing =>
    k.Asleep finishing ∧ k.toBeDestroyed = none ∧ k.level = .off
  | .switched =>
    k.Executing ∧ k.level = .off ∧ k.frame k.currentThread ≠ .finish ∧
      ∀ t, k.toBeDestroyed = some t → k.status t = some .blocked ∧ k.frame t = .finish

structure Invariant (k : Kernel) : Prop where
  core : k.Core
  inHandler : k.inHandler = false
  situation : k.Situation

namespace Core

theorem congr (h : k.Core) (status : k'.status = k.status) (readyList : k'.readyList = k.readyList)
    (semaphore : k'.semaphore = k.semaphore) (frame : k'.frame = k.frame)
    (allocated : k'.allocated = k.allocated) : k'.Core where
  ready := by rw [status, readyList]; exact h.ready
  nodup := by rw [readyList]; exact h.nodup
  queued := by rw [semaphore, status, frame]; exact h.queued
  queueNodup := by rw [semaphore]; exact h.queueNodup
  own := by rw [frame]; exact h.own
  restartable := by rw [status, frame]; exact h.restartable
  unallocated := by rw [allocated, status]; exact h.unallocated

theorem not_queued (h : k.Core) (notBlocked : k.status t ≠ some .blocked) (i : Nat) :
    t ∉ (k.semaphore i).queue :=
  fun hq => notBlocked (h.queued i t hq).1

theorem live_lt (h : k.Core) (live : k.status t ≠ none) : t < k.allocated := by
  by_contra hlt
  exact live (h.unallocated t (by omega))

/-- A status change that does not touch the ready list or a queue. -/
theorem setStatus (h : k.Core) (st : Option ThreadStatus) (notReady : k.status t ≠ some .ready)
    (live : k.status t ≠ none) (becomes : st ≠ some .ready)
    (out : st = some .blocked ∨ ∀ i, t ∉ (k.semaphore i).queue) :
    Core { k with status := Function.update k.status t st } where
  ready u := by
    by_cases hu : u = t
    · subst hu
      simpa [becomes] using mt (h.ready u).mpr notReady
    · simpa [hu] using h.ready u
  nodup := h.nodup
  queued i u hu := by
    obtain ⟨blocked, frame⟩ := h.queued i u hu
    refine ⟨?_, frame⟩
    by_cases hut : u = t
    · subst hut
      rcases out with rfl | out
      · simp
      · exact absurd hu (out i)
    · simpa [hut] using blocked
  queueNodup := h.queueNodup
  own := h.own
  restartable u hu := by
    by_cases hut : u = t
    · subst hut
      simp [becomes] at hu
    · simp only [Function.update_of_ne hut] at hu
      exact h.restartable u hu
  unallocated u hu := by
    have : u ≠ t := by
      rintro rfl
      exact absurd (h.live_lt live) (by simpa using hu)
    simpa [this] using h.unallocated u hu

theorem setFrame (h : k.Core) {f : Frame} (out : ∀ i, t ∉ (k.semaphore i).queue)
    (own : ∀ i u oldLevel, f = .p i u oldLevel → u = t)
    (restartable : k.status t = some .ready → f ≠ .finish) :
    Core { k with frame := Function.update k.frame t f } where
  ready := h.ready
  nodup := h.nodup
  queued i u hu := by
    have : u ≠ t := fun e => out i (e ▸ hu)
    simpa [this] using h.queued i u hu
  queueNodup := h.queueNodup
  own u i v oldLevel hu := by
    by_cases hut : u = t
    · subst hut
      simp only [Function.update_self] at hu
      exact own i v oldLevel hu
    · simp only [Function.update_of_ne hut] at hu
      exact h.own u i v oldLevel hu
  restartable u hu := by
    by_cases hut : u = t
    · subst hut
      simpa using restartable hu
    · simpa [hut] using h.restartable u hu
  unallocated := h.unallocated

/-- `P` puts a blocked thread on a queue. -/
theorem enqueue (h : k.Core) {i : Nat} (oldLevel : IntStatus) (value : Int)
    (blocked : k.status t = some .blocked) (frame : k.frame t = .p i t oldLevel)
    (fresh : t ∉ (k.semaphore i).queue) :
    Core { k with
      semaphore := Function.update k.semaphore i ⟨value, (k.semaphore i).queue ++ [t]⟩ } where
  ready := h.ready
  nodup := h.nodup
  queued j u hu := by
    by_cases hj : j = i
    · subst hj
      simp only [Function.update_self, List.mem_append, List.mem_singleton] at hu
      rcases hu with hu | rfl
      · exact h.queued j u hu
      · exact ⟨blocked, oldLevel, frame⟩
    · simp only [Function.update_of_ne hj] at hu
      exact h.queued j u hu
  queueNodup j := by
    by_cases hj : j = i
    · subst hj
      simpa using (h.queueNodup j).concat fresh
    · simpa [hj] using h.queueNodup j
  own := h.own
  restartable := h.restartable
  unallocated := h.unallocated

/-- `ReadyToRun`, together with the removal of the thread from a queue. -/
theorem makeReady (h : k.Core) (semaphore : Nat → Semaphore Nat)
    (notReady : k.status t ≠ some .ready) (live : k.status t ≠ none)
    (restartable : k.frame t ≠ .finish)
    (sub : ∀ i, (semaphore i).queue.Sublist (k.semaphore i).queue)
    (out : ∀ i, t ∉ (semaphore i).queue) :
    Core { k with
      status := Function.update k.status t (some .ready)
      readyList := k.readyList ++ [t]
      semaphore } where
  ready u := by
    by_cases hu : u = t
    · simp [hu]
    · simpa [hu] using h.ready u
  nodup := by simpa using h.nodup.concat (mt (h.ready t).mpr notReady)
  queued i u hu := by
    have : u ≠ t := fun e => out i (e ▸ hu)
    simpa [this] using h.queued i u ((sub i).subset hu)
  queueNodup i := (h.queueNodup i).sublist (sub i)
  own := h.own
  restartable u hu := by
    by_cases hut : u = t
    · subst hut
      exact restartable
    · simp only [Function.update_of_ne hut] at hu
      exact h.restartable u hu
  unallocated u hu := by
    have : u ≠ t := by
      rintro rfl
      exact absurd (h.live_lt live) (by simpa using hu)
    simpa [this] using h.unallocated u hu

/-- The front of the ready list starts to run. -/
theorem dispatch (h : k.Core) {rest : List Nat} (front : k.readyList = t :: rest) :
    Core { k with status := Function.update k.status t (some .running), readyList := rest } where
  ready u := by
    have nodup := front ▸ h.nodup
    by_cases hu : u = t
    · subst hu
      simpa using (List.nodup_cons.mp nodup).1
    · simpa [hu, front] using h.ready u
  nodup := (List.nodup_cons.mp (front ▸ h.nodup)).2
  queued i u hu := by
    have ready : k.status t = some .ready := (h.ready t).mpr (by simp [front])
    have : u ≠ t := by
      rintro rfl
      exact absurd (h.queued i u hu).1 (by simp [ready])
    simpa [this] using h.queued i u hu
  queueNodup := h.queueNodup
  own := h.own
  restartable u hu := by
    by_cases hut : u = t
    · subst hut
      simp at hu
    · simp only [Function.update_of_ne hut] at hu
      exact h.restartable u hu
  unallocated u hu := by
    have ready : k.status t = some .ready := (h.ready t).mpr (by simp [front])
    have : u ≠ t := by
      rintro rfl
      simp [h.unallocated u hu] at ready
    simpa [this] using h.unallocated u hu

theorem newThread (h : k.Core) : k.newThread.Core where
  ready u := by
    have fresh := h.unallocated k.allocated le_rfl
    by_cases hu : u = k.allocated
    · subst hu
      simpa [Kernel.newThread] using mt (h.ready _).mpr (by simp [fresh])
    · simpa [Kernel.newThread, hu] using h.ready u
  nodup := h.nodup
  queued i u hu := by
    obtain ⟨blocked, frame⟩ := h.queued i u hu
    have : u ≠ k.allocated := by
      rintro rfl
      simp [h.unallocated k.allocated le_rfl] at blocked
    simpa [Kernel.newThread, this] using And.intro blocked frame
  queueNodup := h.queueNodup
  own := h.own
  restartable u hu := by
    by_cases hut : u = k.allocated
    · subst hut
      simp [Kernel.newThread] at hu
    · simp only [Kernel.newThread, Function.update_of_ne hut] at hu
      exact h.restartable u hu
  unallocated u hu := by
    have later : k.allocated + 1 ≤ u := hu
    have : u ≠ k.allocated := by omega
    simpa [Kernel.newThread, this] using h.unallocated u (by omega)

end Core

section Routines

theorem setStatus_eq {st : ThreadStatus} (live : k.status t ≠ none) :
    k.setStatus t st = .ok { k with status := Function.update k.status t (some st) } := by
  unfold setStatus
  rw [check_true (Option.isSome_iff_ne_none.mpr live), Exec.ok_bind]

theorem readyToRun_eq (off : k.level = .off) (live : k.status t ≠ none)
    (fresh : t ∉ k.readyList) :
    k.readyToRun t = .ok { k with
      status := Function.update k.status t (some .ready)
      readyList := k.readyList ++ [t] } := by
  unfold readyToRun
  rw [check_true off, Exec.ok_bind, setStatus_eq live, Exec.ok_bind]
  simp only [append_fresh fresh]

theorem findNextToRun_cases (off : k.level = .off) :
    (k.readyList = [] ∧ k.findNextToRun = .ok (none, k)) ∨
    ∃ next rest, k.readyList = next :: rest ∧
      k.findNextToRun = .ok (some next, { k with readyList := rest }) := by
  unfold findNextToRun
  rw [check_true off, Exec.ok_bind]
  cases k.readyList with
  | nil => exact .inl ⟨rfl, rfl⟩
  | cons next rest => exact .inr ⟨next, rest, rfl, rfl⟩

theorem run_eq {finishing : Bool} (off : k.level = .off) (live : k.status t ≠ none)
    (free : finishing = true → k.toBeDestroyed = none) :
    k.run t finishing = .ok { k with
      toBeDestroyed := if finishing then some k.currentThread else k.toBeDestroyed
      currentThread := t
      status := Function.update k.status t (some .running)
      control := .switched } := by
  unfold run
  rw [check_true off, Exec.ok_bind]
  cases finishing with
  | false =>
    simp only [Bool.false_eq_true, if_false, Exec.ok_bind]
    rw [setStatus_eq (by exact live), Exec.ok_bind]
  | true =>
    simp only [if_true, check_true (free rfl), Exec.ok_bind]
    rw [setStatus_eq (by exact live), Exec.ok_bind]

theorem setLevel_off : k.setLevel .off = .ok { k with level := .off } := by
  unfold setLevel
  rw [check_true (.inl rfl), Exec.ok_bind, if_neg (by simp)]

/-- With interrupts on already, or off before and after, no time passes. -/
theorem setLevel_cases (now : IntStatus) (outside : k.inHandler = false) :
    k.setLevel now = .ok { k with level := now } ∨
      k.setLevel now = .ok { k with level := now, control := .tick } := by
  unfold setLevel
  rw [check_true (.inr outside), Exec.ok_bind]
  by_cases rises : now = .on ∧ k.level = .off
  · exact .inr (if_pos rises)
  · exact .inl (if_neg rises)

end Routines

section Returns

/-- The routine passes its assertions and ends in a state that meets the invariant. -/
def Returns (x : Exec Kernel) : Prop := ∃ k', x = .ok k' ∧ k'.Invariant

theorem Executing.current (h : k.Executing) : k.status k.currentThread = some .running :=
  (h _).mpr rfl

theorem Executing.not_ready (h : k.Executing) : k.status k.currentThread ≠ some .ready := by
  simp [h.current]

theorem Executing.not_none (h : k.Executing) : k.status k.currentThread ≠ none := by
  simp [h.current]

theorem Executing.not_queued (h : k.Executing) (core : k.Core) (i : Nat) :
    k.currentThread ∉ (k.semaphore i).queue :=
  core.not_queued (by simp [h.current]) i

/-- The routines called from a thread's own code end with `SetLevel`. -/
theorem setLevel_returns {now : IntStatus} (core : k.Core) (outside : k.inHandler = false)
    (executing : k.Executing) (none : k.toBeDestroyed = none) (body : k.control = .body) :
    Returns (k.setLevel now) := by
  rcases setLevel_cases now outside with ends | ends
  · refine ⟨_, ends, core.congr rfl rfl rfl rfl rfl, outside, ?_⟩
    simp only [Situation, body]
    exact ⟨executing, none⟩
  · exact ⟨_, ends, core.congr rfl rfl rfl rfl rfl, outside, executing, none⟩

theorem asleep_of_blocked (finishing : Bool) (executing : k.Executing)
    (frame : finishing = true ↔ k.frame k.currentThread = .finish) :
    Asleep { k with status := Function.update k.status k.currentThread (some .blocked) }
      finishing where
  none_running u := by
    by_cases hu : u = k.currentThread
    · simp [hu]
    · simpa [hu] using mt (executing u).mp hu
  finishes h := ⟨by simp, frame.mp h⟩
  returns h := ⟨by simp, fun f => by simp [h] at frame; exact frame f⟩

theorem sleep_eq {finishing : Bool} (off : k.level = .off)
    (live : k.status k.currentThread ≠ none) :
    k.sleep k.currentThread finishing = .ok { k with
      status := Function.update k.status k.currentThread (some .blocked)
      control := .sleeping finishing } := by
  unfold sleep
  rw [check_true rfl, Exec.ok_bind, check_true off, Exec.ok_bind, setStatus_eq live, Exec.ok_bind]

theorem finish_returns (core : k.Core) (outside : k.inHandler = false)
    (executing : k.Executing) (none : k.toBeDestroyed = none) :
    Returns (k.finish k.currentThread) := by
  unfold finish
  rw [setLevel_off, Exec.ok_bind, check_true rfl, Exec.ok_bind]
  refine ⟨_, sleep_eq rfl executing.not_none, ?_⟩
  have framed := core.setFrame (f := .finish) (executing.not_queued core) (by simp)
    (fun ready => absurd ready executing.not_ready)
  have blocked := framed.setStatus (some .blocked) executing.not_ready executing.not_none
    (by simp) (.inl rfl)
  have asleep := asleep_of_blocked true
    (k := { k with frame := Function.update k.frame k.currentThread .finish }) executing (by simp)
  exact ⟨blocked.congr rfl rfl rfl rfl rfl, outside,
    ⟨asleep.none_running, asleep.finishes, asleep.returns⟩, none, rfl⟩

/-- Both outcomes of a pass of the loop in `P`: the unit is taken, or the thread
is put on the queue and goes to sleep. -/
theorem pLoop_returns {i : Nat} {oldLevel : IntStatus} (core : k.Core)
    (outside : k.inHandler = false) (executing : k.Executing) (none : k.toBeDestroyed = none)
    (body : k.control = .body) (off : k.level = .off) :
    Returns (k.pLoop i k.currentThread oldLevel) := by
  unfold pLoop Semaphore.P
  split
  next absent =>
    split at absent
    · simp [append_fresh (executing.not_queued core i)] at absent
    · cases absent
  next semaphore taken =>
    split at taken
    · simp [append_fresh (executing.not_queued core i)] at taken
    · cases taken
      refine setLevel_returns ?_ outside executing none body
      have queues : ∀ j, (Function.update k.semaphore i
          { k.semaphore i with value := int32 ((k.semaphore i).value - 1) } j).queue
            = (k.semaphore j).queue := by
        intro j
        by_cases hj : j = i
        · subst hj
          simp
        · simp [hj]
      exact { core with
        queued := fun j u hu => core.queued j u (queues j ▸ hu)
        queueNodup := fun j => (queues j).symm ▸ core.queueNodup j }
  next semaphore waits =>
    split at waits
    · rw [append_fresh (executing.not_queued core i)] at waits
      cases waits
      refine ⟨_, sleep_eq off executing.not_none, ?_⟩
      have framed := core.setFrame (f := .p i k.currentThread oldLevel) (executing.not_queued core)
        (by simp) (by simp)
      have blocked := framed.setStatus (some .blocked) executing.not_ready
        executing.not_none (by simp) (.inl rfl)
      have queued := blocked.enqueue (t := k.currentThread) (i := i) oldLevel
        (k.semaphore i).value (by simp) (by simp) (executing.not_queued core i)
      have asleep := asleep_of_blocked false (k := { k with
        frame := Function.update k.frame k.currentThread (.p i k.currentThread oldLevel) })
        executing (by simp)
      exact ⟨queued.congr rfl rfl rfl rfl rfl, outside,
        ⟨asleep.none_running, asleep.finishes, asleep.returns⟩, none, off⟩
    · cases waits

end Returns

section Wakeups

/-- `V` before it restores the interrupt level. -/
def afterV (k : Kernel) (i : Nat) : Kernel :=
  match (k.semaphore i).queue with
  | [] =>
    { k with
      level := .off
      semaphore := Function.update k.semaphore i ⟨int32 ((k.semaphore i).value + 1), []⟩ }
  | t :: rest =>
    { k with
      level := .off
      status := Function.update k.status t (some .ready)
      readyList := k.readyList ++ [t]
      semaphore := Function.update k.semaphore i ⟨int32 ((k.semaphore i).value + 1), rest⟩ }

theorem v_eq (core : k.Core) (i : Nat) : k.v i = (k.afterV i).setLevel k.level := by
  unfold v
  rw [setLevel_off, Exec.ok_bind]
  unfold Semaphore.V afterV
  match hq : (k.semaphore i).queue with
  | [] => simp only [removeFront, Exec.ok_bind]
  | t :: rest =>
    have blocked := (core.queued i t (by simp [hq])).1
    have fresh : t ∉ k.readyList := mt (core.ready t).mpr (by simp [blocked])
    simp only [removeFront]
    rw [readyToRun_eq (k := { k with level := .off }) rfl (by simp [blocked]) fresh, Exec.ok_bind]

/-- What `V`, in a thread or in a handler, can change: blocked threads that are
not finishing become ready. -/
structure Wakes (k k' : Kernel) : Prop where
  core : k'.Core
  inHandler : k'.inHandler = k.inHandler
  currentThread : k'.currentThread = k.currentThread
  toBeDestroyed : k'.toBeDestroyed = k.toBeDestroyed
  frame : k'.frame = k.frame
  control : k'.control = k.control
  status : ∀ t, k'.status t = k.status t ∨
    (k.status t = some .blocked ∧ k'.status t = some .ready ∧ k.frame t ≠ .finish)

theorem Wakes.refl (core : k.Core) : Wakes k k :=
  ⟨core, rfl, rfl, rfl, rfl, rfl, fun _ => .inl rfl⟩

theorem Wakes.trans {k'' : Kernel} (first : Wakes k k') (second : Wakes k' k'') : Wakes k k'' where
  core := second.core
  inHandler := second.inHandler.trans first.inHandler
  currentThread := second.currentThread.trans first.currentThread
  toBeDestroyed := second.toBeDestroyed.trans first.toBeDestroyed
  frame := second.frame.trans first.frame
  control := second.control.trans first.control
  status t := by
    have h₁ := first.status t
    have h₂ := second.status t
    rw [first.frame] at h₂
    rcases h₁ with same₁ | ⟨blocked₁, ready₁, frame₁⟩
    · rwa [same₁] at h₂
    · rcases h₂ with same₂ | ⟨blocked₂, -, -⟩
      · exact .inr ⟨blocked₁, same₂.trans ready₁, frame₁⟩
      · simp [ready₁] at blocked₂

theorem Wakes.executing (h : Wakes k k') (executing : k.Executing) : k'.Executing := by
  intro t
  rw [h.currentThread, ← executing t]
  rcases h.status t with same | ⟨blocked, ready, -⟩
  · rw [same]
  · simp [blocked, ready]

theorem Wakes.asleep {finishing : Bool} (h : Wakes k k') (asleep : k.Asleep finishing) :
    k'.Asleep finishing where
  none_running t := by
    rcases h.status t with same | ⟨-, ready, -⟩
    · rw [same]
      exact asleep.none_running t
    · simp [ready]
  finishes hf := by
    obtain ⟨blocked, frame⟩ := asleep.finishes hf
    rw [h.currentThread, h.frame]
    rcases h.status k.currentThread with same | ⟨-, -, notFinish⟩
    · exact ⟨same.trans blocked, frame⟩
    · exact absurd frame notFinish
  returns hf := by
    obtain ⟨status, frame⟩ := asleep.returns hf
    rw [h.currentThread, h.frame]
    rcases h.status k.currentThread with same | ⟨-, ready, -⟩
    · exact ⟨same ▸ status, frame⟩
    · exact ⟨.inr ready, frame⟩

theorem afterV_wakes (core : k.Core) (i : Nat) : Wakes k (k.afterV i) := by
  unfold afterV
  match hq : (k.semaphore i).queue with
  | [] =>
    have queues : ∀ j,
        (Function.update k.semaphore i ⟨int32 ((k.semaphore i).value + 1), []⟩ j).queue
          = (k.semaphore j).queue := by
      intro j
      by_cases hj : j = i
      · subst hj
        simp [hq]
      · simp [hj]
    exact ⟨{ core with
      queued := fun j u hu => core.queued j u (queues j ▸ hu)
      queueNodup := fun j => (queues j).symm ▸ core.queueNodup j },
      rfl, rfl, rfl, rfl, rfl, fun _ => .inl rfl⟩
  | t :: rest =>
    obtain ⟨blocked, oldLevel, frame⟩ := core.queued i t (by simp [hq])
    have nodup : t ∉ rest := (List.nodup_cons.mp (hq ▸ core.queueNodup i)).1
    have woken := core.makeReady
      (Function.update k.semaphore i ⟨int32 ((k.semaphore i).value + 1), rest⟩)
      (t := t) (by simp [blocked]) (by simp [blocked]) (by simp [frame])
      (by
        intro j
        by_cases hj : j = i
        · subst hj
          simp [hq]
        · simp [hj])
      (by
        intro j
        by_cases hj : j = i
        · subst hj
          simpa using nodup
        · simp only [Function.update_of_ne hj]
          intro hmem
          -- A thread waits on one semaphore only: its frame names it.
          obtain ⟨-, otherLevel, otherFrame⟩ := core.queued j t hmem
          rw [frame] at otherFrame
          injection otherFrame with same
          exact hj same.symm)
    refine ⟨woken.congr rfl rfl rfl rfl rfl, rfl, rfl, rfl, rfl, rfl, fun u => ?_⟩
    by_cases hu : u = t
    · subst hu
      exact .inr ⟨blocked, by simp, by simp [frame]⟩
    · exact .inl (by simp [hu])

theorem handleAll_wakes (calls : List HandlerCall) (core : k.Core) (off : k.level = .off)
    (inside : k.inHandler = true) :
    ∃ k', k.handleAll calls = .ok k' ∧ Wakes k k' ∧ k'.level = .off := by
  induction calls generalizing k with
  | nil => exact ⟨k, rfl, Wakes.refl core, off⟩
  | cons call calls ih =>
    have one : ∃ k', k.handle call = .ok k' ∧ Wakes k k' ∧ k'.level = .off := by
      cases call with
      | v i =>
        have woken := afterV_wakes core i
        refine ⟨{ k.afterV i with level := .off }, ?_, ?_, rfl⟩
        · rw [handle, v_eq core i, off, setLevel_off]
        · exact ⟨woken.core.congr rfl rfl rfl rfl rfl, woken.inHandler, woken.currentThread,
            woken.toBeDestroyed, woken.frame, woken.control, woken.status⟩
      | yieldOnReturn =>
        refine ⟨{ k with yieldOnReturn := true }, ?_, ?_, off⟩
        · simp only [handle, setYieldOnReturn, check_true inside, Exec.ok_bind]
        · exact ⟨core.congr rfl rfl rfl rfl rfl, rfl, rfl, rfl, rfl, rfl, fun _ => .inl rfl⟩
    obtain ⟨k₁, runs, woken, off₁⟩ := one
    obtain ⟨k₂, rest, woken', off₂⟩ := ih woken.core off₁ (woken.inHandler.trans inside)
    refine ⟨k₂, ?_, woken.trans woken', off₂⟩
    simp only [handleAll, runs, Exec.ok_bind, rest]

theorem checkIfDue_wakes (due : Option (List HandlerCall)) (core : k.Core) (off : k.level = .off)
    (outside : k.inHandler = false) :
    ∃ k', k.checkIfDue due = .ok (due.isSome, k') ∧ Wakes k k' ∧ k'.level = .off := by
  unfold checkIfDue
  rw [check_true off, Exec.ok_bind]
  cases due with
  | none => exact ⟨k, rfl, Wakes.refl core, off⟩
  | some calls =>
    obtain ⟨k', runs, woken, off'⟩ := handleAll_wakes (k := { k with inHandler := true }) calls
      (core.congr rfl rfl rfl rfl rfl) off rfl
    refine ⟨{ k' with inHandler := false }, ?_, ?_, off'⟩
    · simp only [runs, Exec.ok_bind, Option.isSome_some]
    · exact ⟨woken.core.congr rfl rfl rfl rfl rfl, outside.symm, woken.currentThread,
        woken.toBeDestroyed, woken.frame, woken.control, woken.status⟩

end Wakeups

section Steps

theorem v_returns (core : k.Core) (outside : k.inHandler = false) (executing : k.Executing)
    (none : k.toBeDestroyed = none) (body : k.control = .body) (i : Nat) : Returns (k.v i) := by
  have woken := afterV_wakes core i
  rw [v_eq core i]
  exact setLevel_returns woken.core (woken.inHandler.trans outside) (woken.executing executing)
    (woken.toBeDestroyed.trans none) (woken.control.trans body)

theorem p_returns (core : k.Core) (outside : k.inHandler = false) (executing : k.Executing)
    (none : k.toBeDestroyed = none) (body : k.control = .body) (i : Nat) : Returns (k.p i) := by
  unfold p
  rw [setLevel_off, Exec.ok_bind]
  exact pLoop_returns (k := { k with level := .off }) (core.congr rfl rfl rfl rfl rfl) outside
    executing none body rfl

theorem fork_returns (core : k.Core) (outside : k.inHandler = false) (executing : k.Executing)
    (none : k.toBeDestroyed = none) (body : k.control = .body)
    (created : k.status t = some .justCreated) : Returns (k.fork t) := by
  have out := fun i => core.not_queued (t := t) (by simp [created]) i
  have framed := core.setFrame (f := .fresh) out (by simp) (by simp)
  have ready := framed.makeReady k.semaphore (t := t) (by simp [created]) (by simp [created])
    (by simp) (fun _ => List.Sublist.refl _) out
  have absent : t ∉ k.readyList := mt (core.ready t).mpr (by simp [created])
  simp only [fork, setLevel_off, Exec.ok_bind]
  rw [readyToRun_eq rfl (by simp [created]) (by exact absent), Exec.ok_bind]
  refine setLevel_returns (ready.congr rfl rfl rfl rfl rfl) outside ?_ none body
  intro u
  by_cases hu : u = t
  · subst hu
    have other : u ≠ k.currentThread := by
      rintro rfl
      simp [executing.current] at created
    simp [other]
  · simpa [hu] using executing u

/-- A thread taken from the front of the ready list becomes the current one. -/
theorem executing_of_dispatch {status : Nat → Option ThreadStatus}
    (none_running : ∀ u, u ≠ t → status u ≠ some .running) (u : Nat) :
    Function.update status t (some .running) u = some .running ↔ u = t := by
  by_cases hu : u = t
  · simp [hu]
  · simp [hu, none_running u hu]

theorem yield_returns (core : k.Core) (outside : k.inHandler = false) (executing : k.Executing)
    (none : k.toBeDestroyed = none) (body : k.control = .body) :
    Returns (k.yield k.currentThread) := by
  unfold yield
  rw [setLevel_off, Exec.ok_bind, check_true rfl, Exec.ok_bind]
  obtain ⟨-, found⟩ | ⟨next, rest, front, found⟩ :=
    findNextToRun_cases (k := { k with level := .off }) rfl
  · rw [found, Exec.ok_bind]
    exact setLevel_returns (k := { k with level := .off }) (core.congr rfl rfl rfl rfl rfl) outside
      executing none body
  · have front : k.readyList = next :: rest := front
    have nextReady : k.status next = some .ready := (core.ready next).mpr (by simp [front])
    have different : next ≠ k.currentThread := by
      rintro rfl
      exact executing.not_ready nextReady
    have absent : k.currentThread ∉ rest := fun hmem =>
      executing.not_ready ((core.ready _).mpr (by simp [front, hmem]))
    rw [found, Exec.ok_bind]
    simp only
    rw [readyToRun_eq rfl (by exact executing.not_none) (by exact absent), Exec.ok_bind,
      run_eq rfl (by simp [different, nextReady]) (by simp)]
    have dispatched := core.dispatch front
    have framed := dispatched.setFrame (t := k.currentThread) (f := .yield k.level)
      (executing.not_queued core) (by simp) (by simp)
    have ready := framed.makeReady k.semaphore (t := k.currentThread)
      (by simp [different.symm, executing.current]) (by simp [different.symm, executing.current])
      (by simp) (fun _ => List.Sublist.refl _) (executing.not_queued core)
    refine ⟨_, rfl, ready.congr ?_ rfl rfl rfl rfl, outside, ?_, rfl, ?_, ?_⟩
    · exact (Function.update_comm different _ _ _).symm
    · refine executing_of_dispatch fun u hu => ?_
      by_cases hc : u = k.currentThread
      · simp [hc]
      · simpa [hc] using mt (executing u).mp hc
    · simpa [different] using core.restartable next nextReady
    · simp [none]

theorem dispatch_returns {finishing : Bool} (core : k.Core) (outside : k.inHandler = false)
    (asleep : k.Asleep finishing) (none : k.toBeDestroyed = none) (off : k.level = .off) :
    Returns (k.dispatch finishing) := by
  unfold dispatch
  obtain ⟨-, found⟩ | ⟨next, rest, front, found⟩ := findNextToRun_cases off
  · rw [found, Exec.ok_bind]
    exact ⟨_, rfl, core.congr rfl rfl rfl rfl rfl, outside,
      ⟨asleep.none_running, asleep.finishes, asleep.returns⟩, none, off⟩
  · have nextReady : k.status next = some .ready := (core.ready next).mpr (by simp [front])
    rw [found, Exec.ok_bind]
    simp only
    rw [run_eq (k := { k with readyList := rest }) off (by simp [nextReady]) (fun _ => none)]
    refine ⟨_, rfl, (core.dispatch front).congr rfl rfl rfl rfl rfl, outside,
      executing_of_dispatch fun u _ => asleep.none_running u, off,
      core.restartable next nextReady, ?_⟩
    intro u destroyed
    -- Only a finishing thread is marked, and it is still blocked.
    cases finishing with
    | false => simp [none] at destroyed
    | true =>
      obtain ⟨blocked, frame⟩ := asleep.finishes rfl
      simp only [if_true, Option.some.injEq] at destroyed
      subst destroyed
      have different : k.currentThread ≠ next := by
        rintro rfl
        simp [blocked] at nextReady
      exact ⟨by simpa [different] using blocked, frame⟩

/-- The thread that was switched in deletes the one that finished. -/
theorem checkToBeDestroyed_eq (core : k.Core) (executing : k.Executing)
    (finished : ∀ u, k.toBeDestroyed = some u → k.status u = some .blocked ∧ k.frame u = .finish) :
    ∃ status, k.checkToBeDestroyed = .ok { k with status, toBeDestroyed := none } ∧
      Core { k with status, toBeDestroyed := none } ∧
      Executing { k with status, toBeDestroyed := none } := by
  unfold checkToBeDestroyed
  cases tbd : k.toBeDestroyed with
  | none =>
    have same : { k with toBeDestroyed := none } = k := by rw [← tbd]
    exact ⟨k.status, congrArg _ same.symm, core.congr rfl rfl rfl rfl rfl, executing⟩
  | some u =>
    obtain ⟨blocked, frame⟩ := finished u tbd
    have different : u ≠ k.currentThread := by
      rintro rfl
      simp [executing.current] at blocked
    have out : ∀ i, u ∉ (k.semaphore i).queue := by
      intro i hmem
      obtain ⟨-, oldLevel, waiting⟩ := core.queued i u hmem
      simp [frame] at waiting
    have deleted := core.setStatus none (by simp [blocked]) (by simp [blocked]) (by simp) (.inr out)
    refine ⟨Function.update k.status u none, ?_, deleted.congr rfl rfl rfl rfl rfl, ?_⟩
    · simp only
      rw [check_true (by simp [blocked]), Exec.ok_bind, check_true different, Exec.ok_bind]
    · intro v
      by_cases hv : v = u
      · subst hv
        simp [different]
      · simpa [hv] using executing v

theorem resume_returns (core : k.Core) (outside : k.inHandler = false) (executing : k.Executing)
    (off : k.level = .off) (restartable : k.frame k.currentThread ≠ .finish)
    (finished : ∀ u, k.toBeDestroyed = some u → k.status u = some .blocked ∧ k.frame u = .finish) :
    Returns k.resume := by
  obtain ⟨status, deletes, core', executing'⟩ := checkToBeDestroyed_eq
    (k := { k with control := .body }) (core.congr rfl rfl rfl rfl rfl) executing finished
  have back : { k with control := .body }.switchedBack =
      .ok { k with status, toBeDestroyed := none, control := .body } := by
    unfold switchedBack
    rw [check_true (by exact off), Exec.ok_bind, deletes]
  unfold resume
  cases frame : k.frame k.currentThread with
  | fresh =>
    simp only [frame, begin, check_true, Exec.ok_bind, deletes]
    exact setLevel_returns core' outside executing' rfl rfl
  | yield oldLevel =>
    simp only [frame, back, Exec.ok_bind]
    exact setLevel_returns core' outside executing' rfl rfl
  | p i currentThread oldLevel =>
    have own := core.own _ _ _ _ frame
    subst own
    simp only [frame, back, Exec.ok_bind]
    exact pLoop_returns core' outside executing' rfl rfl off
  | finish => exact absurd frame restartable

theorem oneTick_returns (core : k.Core) (outside : k.inHandler = false) (executing : k.Executing)
    (none : k.toBeDestroyed = none) (due : Option (List HandlerCall)) :
    Returns (k.oneTick due) := by
  obtain ⟨k', runs, woken, -⟩ := checkIfDue_wakes (k := { k with level := .off }) due
    (core.congr rfl rfl rfl rfl rfl) rfl outside
  simp only [oneTick, runs, Exec.ok_bind]
  exact ⟨_, rfl, woken.core.congr rfl rfl rfl rfl rfl, woken.inHandler.trans outside,
    woken.executing executing, woken.toBeDestroyed.trans none⟩

theorem oneTickReturn_returns (core : k.Core) (outside : k.inHandler = false)
    (executing : k.Executing) (none : k.toBeDestroyed = none) : Returns k.oneTickReturn := by
  unfold oneTickReturn
  simp only
  split
  · exact yield_returns (core.congr rfl rfl rfl rfl rfl) outside executing none rfl
  · exact ⟨_, rfl, core.congr rfl rfl rfl rfl rfl, outside, executing, none⟩

theorem idle_returns {finishing : Bool} (core : k.Core) (outside : k.inHandler = false)
    (asleep : k.Asleep finishing) (none : k.toBeDestroyed = none) (off : k.level = .off)
    (due : Option (List HandlerCall)) :
    Returns (k.idle due finishing) ∨ k.idle due finishing = .error .halted := by
  obtain ⟨k', runs, woken, off'⟩ := checkIfDue_wakes due core off outside
  simp only [idle, runs, Exec.ok_bind]
  split
  · have asleep' := woken.asleep asleep
    exact .inl ⟨_, rfl, woken.core.congr rfl rfl rfl rfl rfl, woken.inHandler.trans outside,
      ⟨asleep'.none_running, asleep'.finishes, asleep'.returns⟩,
      woken.toBeDestroyed.trans none, off'⟩
  · exact .inr rfl

theorem newThread_returns (core : k.Core) (outside : k.inHandler = false) (executing : k.Executing)
    (none : k.toBeDestroyed = none) (body : k.control = .body) : k.newThread.Invariant := by
  refine ⟨core.newThread, outside, ?_⟩
  have fresh := core.unallocated k.allocated le_rfl
  have executing' : k.newThread.Executing := by
    intro u
    by_cases hu : u = k.allocated
    · subst hu
      have other : k.allocated ≠ k.currentThread := by
        intro e
        simp [e, executing.current] at fresh
      simp [newThread, other]
    · simpa [newThread, hu] using executing u
  simp only [Situation, newThread, body]
  exact ⟨executing', none⟩

/-- The current thread executes at every control point outside of `Sleep`. -/
theorem Invariant.executing (h : k.Invariant)
    (awake : k.control = .body ∨ k.control = .tick ∨ k.control = .tickReturn) :
    k.Executing ∧ k.toBeDestroyed = none := by
  have situation := h.situation
  unfold Situation at situation
  rcases awake with at' | at' | at' <;>
    · rw [at'] at situation
      exact situation

theorem Invariant.asleep {finishing : Bool} (h : k.Invariant)
    (asleep : k.control = .sleeping finishing ∨ k.control = .idle finishing) :
    k.Asleep finishing ∧ k.toBeDestroyed = none ∧ k.level = .off := by
  have situation := h.situation
  unfold Situation at situation
  rcases asleep with at' | at' <;>
    · rw [at'] at situation
      exact situation

/-- Every event ends in a state that meets the invariant, except for the halt of
an idle machine without pending interrupts. -/
theorem step_returns {e : KernelEvent} {r : Exec Kernel} (h : k.Invariant)
    (happens : k.step e = some r) : Returns r ∨ r = .error .halted := by
  cases e with
  | newThread =>
    obtain ⟨body, ⟨⟩⟩ := Option.ite_none_right_eq_some.mp happens
    obtain ⟨executing, none⟩ := h.executing (.inl body)
    exact .inl ⟨_, rfl, newThread_returns h.core h.inHandler executing none body⟩
  | fork thread =>
    obtain ⟨⟨body, created⟩, ⟨⟩⟩ := Option.ite_none_right_eq_some.mp happens
    obtain ⟨executing, none⟩ := h.executing (.inl body)
    exact .inl (fork_returns h.core h.inHandler executing none body created)
  | yield =>
    obtain ⟨body, ⟨⟩⟩ := Option.ite_none_right_eq_some.mp happens
    obtain ⟨executing, none⟩ := h.executing (.inl body)
    exact .inl (yield_returns h.core h.inHandler executing none body)
  | p i =>
    obtain ⟨body, ⟨⟩⟩ := Option.ite_none_right_eq_some.mp happens
    obtain ⟨executing, none⟩ := h.executing (.inl body)
    exact .inl (p_returns h.core h.inHandler executing none body i)
  | v i =>
    obtain ⟨body, ⟨⟩⟩ := Option.ite_none_right_eq_some.mp happens
    obtain ⟨executing, none⟩ := h.executing (.inl body)
    exact .inl (v_returns h.core h.inHandler executing none body i)
  | finish =>
    obtain ⟨body, ⟨⟩⟩ := Option.ite_none_right_eq_some.mp happens
    obtain ⟨executing, none⟩ := h.executing (.inl body)
    exact .inl (finish_returns h.core h.inHandler executing none)
  | setLevel now =>
    obtain ⟨body, ⟨⟩⟩ := Option.ite_none_right_eq_some.mp happens
    obtain ⟨executing, none⟩ := h.executing (.inl body)
    exact .inl (setLevel_returns h.core h.inHandler executing none body)
  | instruction =>
    obtain ⟨body, ⟨⟩⟩ := Option.ite_none_right_eq_some.mp happens
    obtain ⟨executing, none⟩ := h.executing (.inl body)
    exact .inl ⟨_, rfl, h.core.congr rfl rfl rfl rfl rfl, h.inHandler, executing, none⟩
  | tick due =>
    obtain ⟨atTick, ⟨⟩⟩ := Option.ite_none_right_eq_some.mp happens
    obtain ⟨executing, none⟩ := h.executing (.inr (.inl atTick))
    exact .inl (oneTick_returns h.core h.inHandler executing none due)
  | tickReturn =>
    obtain ⟨atReturn, ⟨⟩⟩ := Option.ite_none_right_eq_some.mp happens
    obtain ⟨executing, none⟩ := h.executing (.inr (.inr atReturn))
    exact .inl (oneTickReturn_returns h.core h.inHandler executing none)
  | dispatch =>
    simp only [step] at happens
    split at happens
    next finishing atLoop =>
      cases happens
      obtain ⟨asleep, none, off⟩ := h.asleep (.inl atLoop)
      exact .inl (dispatch_returns h.core h.inHandler asleep none off)
    next => cases happens
  | idle due =>
    simp only [step] at happens
    split at happens
    next finishing atIdle =>
      cases happens
      obtain ⟨asleep, none, off⟩ := h.asleep (.inr atIdle)
      exact idle_returns h.core h.inHandler asleep none off due
    next => cases happens
  | resume =>
    obtain ⟨switched, ⟨⟩⟩ := Option.ite_none_right_eq_some.mp happens
    have situation := h.situation
    simp only [Situation, switched] at situation
    obtain ⟨executing, off, restartable, finished⟩ := situation
    exact .inl (resume_returns h.core h.inHandler executing off restartable finished)

theorem initial_invariant (initialValue : Nat → Int) : (initial initialValue).Invariant where
  core := {
    ready := fun t => by
      by_cases ht : t = 0 <;> simp [initial, ht]
    nodup := List.nodup_nil
    queued := fun i t ht => by simp [initial, Semaphore.new] at ht
    queueNodup := fun i => List.nodup_nil
    own := fun t i u oldLevel frame => by simp [initial] at frame
    restartable := fun t _ => by simp [initial]
    unallocated := fun t ht => by
      have later : 1 ≤ t := ht
      have : t ≠ 0 := by omega
      simp [initial, this] }
  inHandler := rfl
  situation := by
    refine ⟨fun t => ?_, rfl⟩
    by_cases ht : t = 0 <;> simp [initial, ht]

theorem Invariant.of_reachable (h : schedulerMachine.Reachable k) : k.Invariant := by
  refine h.invariant ?_ ?_
  · rintro _ ⟨initialValue, rfl⟩
    exact initial_invariant initialValue
  · intro e k k' invariant next
    obtain ⟨r, happens, ends⟩ := Option.bind_eq_some_iff.mp next
    rcases step_returns invariant happens with ⟨after, rfl, kept⟩ | rfl
    · cases ends
      exact kept
    · cases ends

end Steps

/-- What the routines keep between them. -/
structure SchedulerSafe (k : Kernel) : Prop where
  running : k.level = .on → ∀ t, k.status t = some .running ↔ t = k.currentThread
  ready : ∀ t, k.status t = some .ready ↔ t ∈ k.readyList
  nodup : k.readyList.Nodup
  blocked : ∀ t, k.status t = some .blocked → t ∉ k.readyList
  /-- Before `Run` is called by a finishing thread. -/
  free : k.control = .sleeping true → k.toBeDestroyed = none
  /-- The thread that `CheckToBeDestroyed` is going to delete. -/
  destroyed : ∀ t, k.toBeDestroyed = some t → t ≠ k.currentThread ∧ t ∉ k.readyList
  deleted : ∀ t, k.status t = none → t ≠ k.currentThread ∧ t ∉ k.readyList
  /-- No event fails an assertion. -/
  asserts : ∀ e fault, k.step e = some (.error fault) → fault = .halted

/-- A point at which interrupts are enabled is outside of `Sleep` and of a switch. -/
theorem Invariant.running (h : k.Invariant) (enabled : k.level = .on) : k.Executing := by
  have situation := h.situation
  unfold Situation at situation
  split at situation
  · exact situation.1
  · exact situation.1
  · exact situation.1
  · simp [enabled] at situation
  · simp [enabled] at situation
  · exact situation.1

theorem Invariant.current_live (h : k.Invariant) : k.status k.currentThread ≠ none := by
  have situation := h.situation
  have asleep_live : ∀ finishing, k.Asleep finishing → k.status k.currentThread ≠ none := by
    intro finishing asleep
    cases finishing with
    | true => simp [(asleep.finishes rfl).1]
    | false =>
      rcases (asleep.returns rfl).1 with blocked | ready
      · simp [blocked]
      · simp [ready]
  unfold Situation at situation
  split at situation
  · exact situation.1.not_none
  · exact situation.1.not_none
  · exact situation.1.not_none
  · exact asleep_live _ situation.1
  · exact asleep_live _ situation.1
  · exact situation.1.not_none

/-- A thread is marked for deletion only while the next one is switched in. -/
theorem Invariant.destroyed (h : k.Invariant) (marked : k.toBeDestroyed = some t) :
    k.Executing ∧ k.status t = some .blocked := by
  have situation := h.situation
  unfold Situation at situation
  split at situation
  · simp [marked] at situation
  · simp [marked] at situation
  · simp [marked] at situation
  · simp [marked] at situation
  · simp [marked] at situation
  · exact ⟨situation.1, (situation.2.2.2 t marked).1⟩

theorem Invariant.schedulerSafe (h : k.Invariant) : k.SchedulerSafe where
  running := h.running
  ready := h.core.ready
  nodup := h.core.nodup
  blocked t blocked := mt (h.core.ready t).mpr (by simp [blocked])
  free atLoop := (h.asleep (.inl atLoop)).2.1
  destroyed t marked := by
    obtain ⟨executing, blocked⟩ := h.destroyed marked
    refine ⟨?_, mt (h.core.ready t).mpr (by simp [blocked])⟩
    rintro rfl
    simp [executing.current] at blocked
  deleted t gone := by
    refine ⟨?_, mt (h.core.ready t).mpr (by simp [gone])⟩
    rintro rfl
    exact h.current_live gone
  asserts e fault happens := by
    rcases step_returns h happens with ⟨after, ends, -⟩ | ends
    · cases ends
    · cases ends
      rfl

end Kernel

/-- In every run of the thread routines with any due interrupts, no assertion of
`ReadyToRun`, `FindNextToRun`, `Run`, `Yield`, `Sleep`, `Begin`, `Finish`, the
thread destructor, the ready list or the semaphore queues fails, and the states
of the threads, the ready list and `currentThread` agree. -/
theorem scheduler_safe (k : Kernel) (reached : schedulerMachine.Reachable k) : k.SchedulerSafe :=
  (Kernel.Invariant.of_reachable reached).schedulerSafe

/-- The main thread forks a thread and waits on a semaphore; the new thread
begins and finishes; a handler wakes the main thread out of the idle loop, which
deletes the finished thread and goes on. -/
def wokenFromIdle : List KernelEvent :=
  [.newThread, .fork 1, .p 0, .dispatch, .resume, .tick none, .tickReturn, .finish, .dispatch,
    .idle (some [.v 0]), .dispatch]

theorem scheduler_safe_woken_from_idle :
    ∃ k, schedulerMachine.run wokenFromIdle (.initial fun _ => 0) = some k ∧
      k.toBeDestroyed = some 1 ∧ k.SchedulerSafe := by
  have runs : (schedulerMachine.run wokenFromIdle (.initial fun _ => 0)).isSome := by decide
  obtain ⟨k, hk⟩ := Option.isSome_iff_exists.mp runs
  have marked : (schedulerMachine.run wokenFromIdle (.initial fun _ => 0)).map
      Kernel.toBeDestroyed = some (some 1) := by decide
  have start : schedulerMachine.Reachable (.initial fun _ => 0) :=
    Machine.Reachable.init ⟨fun _ => 0, rfl⟩
  exact ⟨k, hk, by simpa [hk] using marked, scheduler_safe k (start.run wokenFromIdle hk)⟩

end NachOS.Threads
