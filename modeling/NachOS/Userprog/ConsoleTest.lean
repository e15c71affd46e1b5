import Mathlib.Data.List.TakeWhile
import NachOS.Userprog.ConsoleInput
import NachOS.Userprog.ConsoleOutput

/-!
# The console test (threads/kernel.cc:165-185, userprog/synchconsole.cc, machine/console.cc)

`Kernel::ConsoleTest` copies the keyboard to the display, one character at a time, until
`GetChar` returns `EOF`. One thread runs it, and the interrupts of both devices come whenever
they are due; whether a poll of the keyboard finds a character is left open.

A `char` that is 0xFF compares equal to `EOF`, so the test ends there as well.
-/
namespace NachOS.Userprog
open NachOS.Lib NachOS.Threads

inductive EchoPc where
  /-- Before or in `synchConsoleIn->GetChar()`. -/
  | getting
  /-- Before or in `synchConsoleOut->PutChar(ch)`. -/
  | putting (ch : Byte)
  /-- Past the loop. -/
  | done
  deriving DecidableEq

structure Echo where
  input : SynchConsoleInput Unit
  output : SynchConsoleOutput Unit
  pc : EchoPc

inductive EchoEvent where
  | step
  | keyboard (ready : Bool)
  | display (serial : Nat)
  deriving DecidableEq

/-- The assertion of which device fails. -/
inductive EchoFault where
  | keyboard (fault : Fault)
  | display (fault : RequestFault)

namespace Echo

def initial (input : List Byte) : Echo where
  input := .initial input
  output := .initial
  pc := .getting

/-- The thread is inside `GetChar`, or has returned from it. -/
def got (s : Echo) (input : SynchConsoleInput Unit) : Echo :=
  match input.pc (), input.returned.getLast? with
  | .idle, some (_, ch) =>
    { s with
      input
      pc := if ch.toInt ≠ -1 then .putting ch else .done }
  | _, _ => { s with input }

/-- The thread is inside `PutChar`, or has returned from it. -/
def put (s : Echo) (output : SynchConsoleOutput Unit) : Echo :=
  { s with
    output
    pc := if output.pc () = .idle then .getting else s.pc }

/-- `none` when the event cannot happen, an error when an assertion of a device fails. -/
def step : EchoEvent → Echo → Option (Except EchoFault Echo)
  | .step, s =>
    match s.pc with
    | .getting =>
      let e : InputEvent Unit := if s.input.pc () = .idle then .getChar () else .step ()
      (SynchConsoleInput.step e s.input).map fun r => (r.mapError .keyboard).map s.got
    | .putting ch =>
      let e : OutputEvent Unit :=
        if s.output.pc () = .idle then .call () (.putChar ch) else .step ()
      (SynchConsoleOutput.step e s.output).map fun r => (r.mapError .display).map s.put
    | .done => none
  | .keyboard ready, s =>
    (SynchConsoleInput.step (.interrupt ready) s.input).map fun r =>
      (r.mapError .keyboard).map fun input => { s with input }
  | .display serial, s =>
    (SynchConsoleOutput.step (.interrupt serial) s.output).map fun r =>
      (r.mapError .display).map fun output => { s with output }

/-- What the display has written. -/
def text (s : Echo) : List Byte := s.output.output.map Prod.snd

end Echo

/-- All orders of the test's steps and the devices' interrupts. -/
def echoMachine (input : List Byte) : Machine Echo EchoEvent where
  init s := s = .initial input
  next e s := (Echo.step e s).bind Except.toOption

section Lock

/-- A lock that one thread uses. -/
structure SoleLock (l : LockState Unit) (pc : LockPc) (inside : Bool) (holder : Option Unit)
    (value : Int) : Prop where
  pc : l.pc () = pc
  inside : l.inside () = inside
  holder : l.lockHolder = holder
  value : l.semaphore.sem.value = value
  queue : l.semaphore.sem.queue = []
  phase : l.semaphore.phase () = .running

variable {l : LockState Unit}

def Free (l : LockState Unit) : Prop := SoleLock l .idle false none 1

def Past (l : LockState Unit) : Prop := SoleLock l .pastP false none 0

def Held (l : LockState Unit) : Prop := SoleLock l .idle true (some ()) 0

def Leaving (l : LockState Unit) : Prop := SoleLock l .releasing false none 0

theorem free_initial : Free .initial :=
  ⟨rfl, rfl, rfl, rfl, rfl, rfl⟩

theorem Free.acquire (h : Free l) : ∃ l', LockState.next (.acquire ()) l = some l' ∧ Past l' := by
  have available : l.semaphore.sem.value ≠ 0 := by simp [h.value]
  have passes : SemState.next (.p ()) l.semaphore = some (l.semaphore.consumed ()) := by
    simp [SemState.next, h.phase, SemState.test, Semaphore.P, available, SemState.consumed]
  refine ⟨l.afterTest () (l.semaphore.consumed ()), ?_, ?_⟩
  · simp only [LockState.next, h.pc, if_true, passes, Option.map_some]
  · exact {
      pc := by simp [LockState.afterTest, SemState.consumed]
      inside := h.inside
      holder := h.holder
      value := by simp [LockState.afterTest, SemState.consumed, h.value]
      queue := h.queue
      phase := by simp [LockState.afterTest, SemState.consumed] }

theorem Past.assign (h : Past l) :
    l.continues () = some (.setHolder ()) ∧
      ∃ l', LockState.next (.setHolder ()) l = some l' ∧ Held l' := by
  refine ⟨by simp [LockState.continues, h.pc], l.assigned (), ?_, ?_⟩
  · simp only [LockState.next, h.pc, if_true]
  · exact ⟨by simp [LockState.assigned], by simp [LockState.assigned], rfl, h.value, h.queue,
      h.phase⟩

theorem Held.release (h : Held l) :
    ∃ l', LockState.next (.release ()) l = some l' ∧ Leaving l' := by
  have held : l.isHeldByCurrentThread () = true := by
    rw [LockState.isHeld_iff, h.holder]
  refine ⟨l.cleared (), ?_, ?_⟩
  · simp only [LockState.next, h.pc, held, if_true]
  · exact ⟨by simp [LockState.cleared], by simp [LockState.cleared], rfl, h.value, h.queue,
      h.phase⟩

theorem Leaving.free (h : Leaving l) :
    l.continues () = some (.v ()) ∧ ∃ l', LockState.next (.v ()) l = some l' ∧ Free l' := by
  refine ⟨by simp [LockState.continues, h.pc], l.freed (), ?_, ?_⟩
  · simp only [LockState.next, h.pc, if_true]
  · have signal := SemState.signal_nil h.queue
    exact {
      pc := by simp [LockState.freed]
      inside := h.inside
      holder := h.holder
      value := by simp [LockState.freed, h.value]
      queue := by simp [LockState.freed, signal]
      phase := by simp [LockState.freed, signal, h.phase] }

end Lock

section Wait

/-- A semaphore that one thread waits on. -/
structure SoleWait (w : SemState Unit) (p : Phase) : Prop where
  phase : w.phase () = p
  queue : w.sem.queue = if p = .queued then [()] else []
  asleep : p = .queued → w.sem.value = 0
  woken : p = .woken → w.sem.value ≠ 0

variable {w : SemState Unit} {p : Phase}

/-- `P` returns. -/
theorem SoleWait.pass (h : SoleWait w p) (awake : p ≠ .queued) (available : w.sem.value ≠ 0) :
    w.pass () = some (w.consumed ()) ∧ SoleWait (w.consumed ()) .running := by
  refine ⟨SemState.pass_available (by rw [h.phase]; exact awake) available, ?_⟩
  have queue := h.queue
  rw [if_neg awake] at queue
  exact ⟨by simp [SemState.consumed], by simpa [SemState.consumed] using queue, by simp, by simp⟩

/-- `P` puts the thread to sleep. -/
theorem SoleWait.sleep (h : SoleWait w .running) (empty : w.sem.value = 0) :
    w.pass () = some (w.slept ()) ∧ SoleWait (w.slept ()) .queued := by
  have queue : w.sem.queue = [] := by simpa using h.queue
  constructor
  · simp [SemState.pass, SemState.next, h.phase, SemState.test, Semaphore.P, empty,
      NachOS.Library.append, queue, SemState.slept]
  · exact ⟨by simp [SemState.slept], by simp [SemState.slept, queue], fun _ => empty, by simp⟩

/-- A `V` wakes the thread if it sleeps. -/
theorem SoleWait.signal (h : SoleWait w p) (empty : w.sem.value = 0) :
    SoleWait w.signal (if p = .queued then .woken else p) := by
  by_cases asleep : p = .queued
  · subst asleep
    have queue : w.sem.queue = [()] := by simpa using h.queue
    have signal := SemState.signal_cons queue
    rw [if_pos rfl, signal]
    exact ⟨by simp, by simp, by simp, fun _ => by simp [empty]⟩
  · have signal := SemState.signal_nil (by simpa [asleep] using h.queue)
    rw [if_neg asleep, signal]
    exact ⟨h.phase, by simp [asleep], fun same => absurd same asleep, fun _ => by simp [empty]⟩

end Wait

section Input

/-- Where the thread stands in `GetChar`, and how many steps it may still take there. -/
inductive Getting (s : SynchConsoleInput Unit) : Nat → Prop
  | out (pc : s.pc () = .idle) (lock : Free s.lock) (wait : SoleWait s.waitFor .running) :
      Getting s 9
  | past (pc : s.pc () = .waiting) (lock : Past s.lock) (wait : SoleWait s.waitFor .running) :
      Getting s 8
  | testing (pc : s.pc () = .waiting) (lock : Held s.lock) (wait : SoleWait s.waitFor .running) :
      Getting s 7
  | asleep (pc : s.pc () = .waiting) (lock : Held s.lock) (wait : SoleWait s.waitFor .queued) :
      Getting s 6
  | woken (pc : s.pc () = .waiting) (lock : Held s.lock) (wait : SoleWait s.waitFor .woken) :
      Getting s 6
  | taking (pc : s.pc () = .taking) (lock : Held s.lock) (wait : SoleWait s.waitFor .running) :
      Getting s 5
  | releasing (position : Nat) (ch : Byte) (pc : s.pc () = .releasing position ch)
      (lock : Held s.lock) (wait : SoleWait s.waitFor .running) : Getting s 4
  | leaving (position : Nat) (ch : Byte) (pc : s.pc () = .returning position ch)
      (lock : Leaving s.lock) (wait : SoleWait s.waitFor .running) : Getting s 3
  | returning (position : Nat) (ch : Byte) (pc : s.pc () = .returning position ch)
      (lock : Free s.lock) (wait : SoleWait s.waitFor .running) : Getting s 2

/-- The next step of the thread in `GetChar`. -/
def getEvent (s : SynchConsoleInput Unit) : InputEvent Unit :=
  if s.pc () = .idle then .getChar () else .step ()

variable {s s' : SynchConsoleInput Unit} {n : Nat} {input : List Byte}

/-- A step inside `GetChar`. -/
structure Inside (s s' : SynchConsoleInput Unit) (n : Nat) : Prop where
  pc : s'.pc () ≠ .idle
  getting : ∃ n' < n, Getting s' n'
  returned : s'.returned = s.returned
  taken : s.taken.length ≤ s'.taken.length
  supply : s'.pending + s.taken.length ≤ s.pending + s'.taken.length

/-- The return from `GetChar`. -/
structure Returned (s s' : SynchConsoleInput Unit) : Prop where
  getting : Getting s' 9
  returned : ∃ position ch, s.pc () = .returning position ch ∧
    s'.returned = s.returned ++ [(position, ch)]
  taken : s'.taken = s.taken
  pending : s'.pending = s.pending

/-- A step of the code of the lock. -/
theorem step_locked {e : LockEvent Unit} {l' : LockState Unit} (pc : s.pc () ≠ .idle)
    (continues : s.lock.continues () = some e) (next : LockState.next e s.lock = some l') :
    SynchConsoleInput.step (getEvent s) s = some (.ok (s.locked () (s.pc ()) l')) := by
  have busy := LockState.continues_busy continues
  simp only [getEvent, if_neg pc, SynchConsoleInput.step, if_neg busy, continues,
    Option.bind_some, SynchConsoleInput.callLock, next, Option.map_some]

/-- A step of the body of `GetChar`. -/
theorem step_body (pc : s.pc () ≠ .idle) (rest : s.lock.pc () = .idle)
    (body : s.body () = some s') :
    SynchConsoleInput.step (getEvent s) s = some (.ok s') := by
  simp only [getEvent, if_neg pc, SynchConsoleInput.step, if_pos rest, body, Option.map_some]

theorem body_passes (pc : s.pc () = .waiting)
    (pass : s.waitFor.pass () = some (s.waitFor.consumed ())) :
    s.body () = some (s.passed ()) := by
  simp [SynchConsoleInput.body, pc, pass, SynchConsoleInput.waited, SynchConsoleInput.passed,
    SemState.consumed]

theorem body_sleeps (pc : s.pc () = .waiting)
    (pass : s.waitFor.pass () = some (s.waitFor.slept ())) :
    s.body () = some { s with waitFor := s.waitFor.slept () } := by
  simp [SynchConsoleInput.body, pc, pass, SynchConsoleInput.waited, SemState.slept]

/-- A step in the lock's code leaves the device alone. -/
theorem locked_inside {pc : InputPc} {l' : LockState Unit} {m : Nat} (busy : pc ≠ .idle)
    (less : m < n) (place : Getting (s.locked () pc l') m) : Inside s (s.locked () pc l') n where
  pc := by simpa [SynchConsoleInput.locked] using busy
  getting := ⟨m, less, place⟩
  returned := rfl
  taken := le_rfl
  supply := le_rfl

/-- The call, up to `lock->Acquire()`. -/
theorem get_acquires (pc : s.pc () = .idle) (lock : Free s.lock)
    (wait : SoleWait s.waitFor .running) :
    ∃ s', SynchConsoleInput.step (getEvent s) s = some (.ok s') ∧ Inside s s' 9 := by
  obtain ⟨l', acquires, past⟩ := lock.acquire
  refine ⟨s.locked () .waiting l', ?_, locked_inside (by simp) (m := 8) (by omega) ?_⟩
  · simp [getEvent, SynchConsoleInput.step, SynchConsoleInput.callLock, pc, acquires]
  · exact .past (by simp [SynchConsoleInput.locked]) past wait

theorem get_assigns (pc : s.pc () = .waiting) (lock : Past s.lock)
    (wait : SoleWait s.waitFor .running) :
    ∃ s', SynchConsoleInput.step (getEvent s) s = some (.ok s') ∧ Inside s s' 8 := by
  obtain ⟨continues, l', assigns, held⟩ := lock.assign
  refine ⟨_, step_locked (by simp [pc]) continues assigns,
    locked_inside (by simp [pc]) (m := 7) (by omega) ?_⟩
  exact .testing (by simp [SynchConsoleInput.locked, pc]) held wait

/-- `waitFor->P()` finds a unit, at once or after the thread has slept. -/
theorem get_passes {p : Phase} (pc : s.pc () = .waiting) (lock : Held s.lock)
    (wait : SoleWait s.waitFor p) (awake : p ≠ .queued) (available : s.waitFor.sem.value ≠ 0)
    (before : 5 < n) :
    ∃ s', SynchConsoleInput.step (getEvent s) s = some (.ok s') ∧ Inside s s' n := by
  obtain ⟨pass, running⟩ := wait.pass awake available
  refine ⟨_, step_body (by simp [pc]) lock.pc (body_passes pc pass), ?_⟩
  exact {
    pc := by simp [SynchConsoleInput.passed]
    getting := ⟨5, before, .taking (by simp [SynchConsoleInput.passed]) lock running⟩
    returned := rfl
    taken := le_rfl
    supply := le_rfl }

theorem get_sleeps (pc : s.pc () = .waiting) (lock : Held s.lock)
    (wait : SoleWait s.waitFor .running) (empty : s.waitFor.sem.value = 0) :
    ∃ s', SynchConsoleInput.step (getEvent s) s = some (.ok s') ∧ Inside s s' 7 := by
  obtain ⟨pass, queued⟩ := wait.sleep empty
  refine ⟨_, step_body (by simp [pc]) lock.pc (body_sleeps pc pass), ?_⟩
  exact {
    pc := by simp [pc]
    getting := ⟨6, by omega, .asleep pc lock queued⟩
    returned := rfl
    taken := le_rfl
    supply := le_rfl }

/-- The character is taken from the device, which may then look for the next one. -/
theorem get_takes (pc : s.pc () = .taking) (lock : Held s.lock)
    (wait : SoleWait s.waitFor .running) :
    ∃ s', SynchConsoleInput.step (getEvent s) s = some (.ok s') ∧ Inside s s' 5 := by
  have body : s.body () = some (s.deviceGetChar ()) := by simp [SynchConsoleInput.body, pc]
  refine ⟨_, step_body (by simp [pc]) lock.pc body, ?_⟩
  exact {
    pc := by simp [SynchConsoleInput.deviceGetChar]
    getting := ⟨4, by omega,
      .releasing s.taken.length s.incoming (by simp [SynchConsoleInput.deviceGetChar]) lock wait⟩
    returned := rfl
    taken := by simp [SynchConsoleInput.deviceGetChar]
    supply := by
      simp only [SynchConsoleInput.deviceGetChar, List.length_append, List.length_singleton]
      split <;> omega }

theorem get_releases {position : Nat} {ch : Byte} (pc : s.pc () = .releasing position ch)
    (lock : Held s.lock) (wait : SoleWait s.waitFor .running) :
    ∃ s', SynchConsoleInput.step (getEvent s) s = some (.ok s') ∧ Inside s s' 4 := by
  obtain ⟨l', releases, leaving⟩ := lock.release
  have body : s.body () = some (s.locked () (.returning position ch) l') := by
    simp [SynchConsoleInput.body, pc, SynchConsoleInput.callLock, releases]
  refine ⟨_, step_body (by simp [pc]) lock.pc body,
    locked_inside (by simp) (m := 3) (by omega) ?_⟩
  exact .leaving position ch (by simp [SynchConsoleInput.locked]) leaving wait

theorem get_leaves {position : Nat} {ch : Byte} (pc : s.pc () = .returning position ch)
    (lock : Leaving s.lock) (wait : SoleWait s.waitFor .running) :
    ∃ s', SynchConsoleInput.step (getEvent s) s = some (.ok s') ∧ Inside s s' 3 := by
  obtain ⟨continues, l', frees, free⟩ := lock.free
  refine ⟨_, step_locked (by simp [pc]) continues frees,
    locked_inside (by simp [pc]) (m := 2) (by omega) ?_⟩
  exact .returning position ch (by simp [SynchConsoleInput.locked, pc]) free wait

theorem get_returns {position : Nat} {ch : Byte} (pc : s.pc () = .returning position ch)
    (lock : Free s.lock) (wait : SoleWait s.waitFor .running) :
    ∃ s', SynchConsoleInput.step (getEvent s) s = some (.ok s') ∧ Returned s s' := by
  have body : s.body () = some (s.returns () position ch) := by
    simp [SynchConsoleInput.body, pc]
  refine ⟨_, step_body (by simp [pc]) lock.pc body, ?_⟩
  exact {
    getting := .out (by simp [SynchConsoleInput.returns]) lock wait
    returned := ⟨position, ch, pc, rfl⟩
    taken := rfl
    pending := rfl }

/-- Unless it sleeps, the thread comes nearer to its return, or returns. -/
theorem Getting.step (h : Getting s n) (awake : s.waitFor.phase () ≠ .queued) :
    ∃ s', SynchConsoleInput.step (getEvent s) s = some (.ok s') ∧
      (Inside s s' n ∨ Returned s s') := by
  have inside (goes : ∃ s', SynchConsoleInput.step (getEvent s) s = some (.ok s') ∧
      Inside s s' n) : ∃ s', SynchConsoleInput.step (getEvent s) s = some (.ok s') ∧
      (Inside s s' n ∨ Returned s s') := by
    obtain ⟨s', steps, inside⟩ := goes
    exact ⟨s', steps, .inl inside⟩
  cases h with
  | out pc lock wait => exact inside (get_acquires pc lock wait)
  | past pc lock wait => exact inside (get_assigns pc lock wait)
  | testing pc lock wait =>
    by_cases empty : s.waitFor.sem.value = 0
    · exact inside (get_sleeps pc lock wait empty)
    · exact inside (get_passes pc lock wait (by simp) empty (by omega))
  | asleep pc lock wait => exact absurd wait.phase awake
  | woken pc lock wait =>
    exact inside (get_passes pc lock wait (by simp) (wait.woken rfl) (by omega))
  | taking pc lock wait => exact inside (get_takes pc lock wait)
  | releasing position ch pc lock wait => exact inside (get_releases pc lock wait)
  | leaving position ch pc lock wait => exact inside (get_leaves pc lock wait)
  | returning position ch pc lock wait =>
    obtain ⟨s', steps, returned⟩ := get_returns pc lock wait
    exact ⟨s', steps, .inr returned⟩

/-- The handler of the keyboard's interrupt wakes the thread if it sleeps. -/
theorem Getting.signalled (h : Getting s n) (empty : s.waitFor.sem.value = 0)
    (pc : s'.pc = s.pc) (lock : s'.lock = s.lock) (waitFor : s'.waitFor = s.waitFor.signal) :
    Getting s' n := by
  have signal {p : Phase} (wait : SoleWait s.waitFor p) :
      SoleWait s'.waitFor (if p = .queued then .woken else p) := by
    rw [waitFor]
    exact wait.signal empty
  cases s'
  simp only at pc lock
  subst pc lock
  cases h with
  | out pc lock wait => exact .out pc lock (signal wait)
  | past pc lock wait => exact .past pc lock (signal wait)
  | testing pc lock wait => exact .testing pc lock (signal wait)
  | asleep pc lock wait => exact .woken pc lock (signal wait)
  | woken pc lock wait => exact .woken pc lock (signal wait)
  | taking pc lock wait => exact .taking pc lock (signal wait)
  | releasing position ch pc lock wait => exact .releasing position ch pc lock (signal wait)
  | leaving position ch pc lock wait => exact .leaving position ch pc lock (signal wait)
  | returning position ch pc lock wait => exact .returning position ch pc lock (signal wait)

/-- What the calls of the device took has been returned, but for one character at most. -/
def Took (s : SynchConsoleInput Unit) : Prop :=
  s.taken = s.returned.map Prod.snd ++ ((s.pc ()).held.map Prod.snd).toList

theorem Took.next (h : Took s) {e : InputEvent Unit} (effect : s.Effect e s') : Took s' := by
  unfold Took at *
  cases effect with
  | lock t lock pc turn =>
    obtain rfl : t = () := rfl
    simpa [SynchConsoleInput.locked, turn.keeps.1] using h
  | pass t pc available =>
    obtain rfl : t = () := rfl
    simpa [SynchConsoleInput.passed, pc, InputPc.held] using h
  | take t pc =>
    obtain rfl : t = () := rfl
    rw [pc] at h
    simpa [SynchConsoleInput.deviceGetChar, InputPc.held] using h
  | returns t position ch pc =>
    obtain rfl : t = () := rfl
    rw [pc] at h
    simpa [SynchConsoleInput.returns, InputPc.held] using h
  | sleep | poll | read | finish => exact h

end Input

section Output

/-- Where the thread stands in `PutChar(ch)`, and how many steps it may still take there. -/
inductive Putting (s : SynchConsoleOutput Unit) (ch : Byte) : Nat → Prop
  | out (pc : s.pc () = .idle) (lock : Free s.lock)
      (wait : SoleWait s.exchange.completion .running) : Putting s ch 10
  | entering (pc : s.pc () = .entering .lock [ch]) (lock : Free s.lock)
      (wait : SoleWait s.exchange.completion .running) : Putting s ch 9
  | past (pc : s.pc () = .sending .lock [ch] []) (lock : Past s.lock)
      (wait : SoleWait s.exchange.completion .running) : Putting s ch 8
  | sending (pc : s.pc () = .sending .lock [ch] []) (lock : Held s.lock)
      (wait : SoleWait s.exchange.completion .running) : Putting s ch 7
  | testing (serial : Nat) (pc : s.pc () = .waiting .lock [ch] [] serial) (lock : Held s.lock)
      (wait : SoleWait s.exchange.completion .running) : Putting s ch 6
  | asleep (serial : Nat) (pc : s.pc () = .waiting .lock [ch] [] serial) (lock : Held s.lock)
      (wait : SoleWait s.exchange.completion .queued) : Putting s ch 5
  | woken (serial : Nat) (pc : s.pc () = .waiting .lock [ch] [] serial) (lock : Held s.lock)
      (wait : SoleWait s.exchange.completion .woken) : Putting s ch 5
  | sent (serial : Nat) (pc : s.pc () = .sending .lock [ch] [serial]) (lock : Held s.lock)
      (wait : SoleWait s.exchange.completion .running) : Putting s ch 4
  | leaving (serial : Nat) (pc : s.pc () = .returning [ch] [serial]) (lock : Leaving s.lock)
      (wait : SoleWait s.exchange.completion .running) : Putting s ch 3
  | returning (serial : Nat) (pc : s.pc () = .returning [ch] [serial]) (lock : Free s.lock)
      (wait : SoleWait s.exchange.completion .running) : Putting s ch 2

/-- The next step of the thread in `PutChar(ch)`. -/
def putEvent (s : SynchConsoleOutput Unit) (ch : Byte) : OutputEvent Unit :=
  if s.pc () = .idle then .call () (.putChar ch) else .step ()

variable {s s' : SynchConsoleOutput Unit} {ch : Byte} {n : Nat}

/-- A step inside `PutChar`; the interrupt that it schedules is one more to come. -/
structure Sending (s s' : SynchConsoleOutput Unit) (ch : Byte) (n : Nat) : Prop where
  pc : s'.pc () ≠ .idle
  putting : ∃ n' < n, Putting s' ch n' ∧
    2 * n' + s'.exchange.pending.length < 2 * n + s.exchange.pending.length
  asked : s'.asked () = s.asked () ++ if s.pc () = .idle then [ch] else []

/-- The return from `PutChar`. -/
structure Sent (s s' : SynchConsoleOutput Unit) (ch : Byte) : Prop where
  inside : s.pc () ≠ .idle
  putting : Putting s' ch 10
  asked : s'.asked () = s.asked ()
  pending : s'.exchange.pending = s.exchange.pending

theorem putStep_locked {e : LockEvent Unit} {l' : LockState Unit} (pc : s.pc () ≠ .idle)
    (continues : s.lock.continues () = some e) (next : LockState.next e s.lock = some l') :
    SynchConsoleOutput.step (putEvent s ch) s = some (.ok (s.locked () (s.pc ()) l')) := by
  have busy := LockState.continues_busy continues
  simp only [putEvent, if_neg pc, SynchConsoleOutput.step, if_neg busy, continues,
    Option.bind_some, SynchConsoleOutput.callLock, next, Option.map_some]

theorem putStep_body (pc : s.pc () ≠ .idle) (rest : s.lock.pc () = .idle)
    (body : s.body () = some (.ok s')) :
    SynchConsoleOutput.step (putEvent s ch) s = some (.ok s') := by
  simp only [putEvent, if_neg pc, SynchConsoleOutput.step, if_pos rest, body]

theorem putBody_passes {serial : Nat} (pc : s.pc () = .waiting .lock [ch] [] serial)
    (pass : s.exchange.completion.pass () = some (s.exchange.completion.consumed ())) :
    s.body () = some (.ok { s with
      exchange := s.exchange.passed ()
      pc := Function.update s.pc () (.sending .lock [ch] [serial]) }) := by
  simp [SynchConsoleOutput.body, pc, Exchange.wait, pass, SynchConsoleOutput.waited,
    Exchange.afterTest, Exchange.passed, SemState.consumed]

theorem putBody_sleeps {serial : Nat} (pc : s.pc () = .waiting .lock [ch] [] serial)
    (waits : s.exchange.waiting () = some serial)
    (pass : s.exchange.completion.pass () = some (s.exchange.completion.slept ())) :
    s.body () = some (.ok { s with exchange := s.exchange.slept () }) := by
  simp [SynchConsoleOutput.body, pc, Exchange.wait, pass, SynchConsoleOutput.waited,
    Exchange.afterTest, Exchange.slept, SemState.slept, waits]

/-- A step in the lock's code leaves the device alone. -/
theorem locked_sending {pc : OutputPc} {l' : LockState Unit} {m : Nat} (began : s.pc () ≠ .idle)
    (busy : pc ≠ .idle) (less : m < n) (place : Putting (s.locked () pc l') ch m) :
    Sending s (s.locked () pc l') ch n where
  pc := by simpa [SynchConsoleOutput.locked] using busy
  putting := by
    refine ⟨m, less, place, ?_⟩
    simp only [SynchConsoleOutput.locked]
    omega
  asked := by simp [SynchConsoleOutput.locked, began]

theorem put_calls (pc : s.pc () = .idle) (lock : Free s.lock)
    (wait : SoleWait s.exchange.completion .running) :
    ∃ s', SynchConsoleOutput.step (putEvent s ch) s = some (.ok s') ∧ Sending s s' ch 10 := by
  refine ⟨s.called () (.putChar ch), ?_, ?_⟩
  · simp [putEvent, SynchConsoleOutput.step, pc]
  · exact {
      pc := by simp [SynchConsoleOutput.called]
      putting := ⟨9, by omega, .entering (by simp [SynchConsoleOutput.called, OutputCall.path,
        OutputCall.chars]) lock wait, by simp [SynchConsoleOutput.called]⟩
      asked := by simp [SynchConsoleOutput.called, pc, OutputCall.chars] }

theorem put_acquires (pc : s.pc () = .entering .lock [ch]) (lock : Free s.lock)
    (wait : SoleWait s.exchange.completion .running) :
    ∃ s', SynchConsoleOutput.step (putEvent s ch) s = some (.ok s') ∧ Sending s s' ch 9 := by
  obtain ⟨l', acquires, past⟩ := lock.acquire
  have body : s.body () = some (.ok (s.locked () (.sending .lock [ch] []) l')) := by
    simp [SynchConsoleOutput.body, pc, SynchConsoleOutput.callLock, acquires]
  refine ⟨_, putStep_body (by simp [pc]) lock.pc body,
    locked_sending (by simp [pc]) (by simp) (m := 8) (by omega) ?_⟩
  exact .past (by simp [SynchConsoleOutput.locked]) past wait

theorem put_assigns (pc : s.pc () = .sending .lock [ch] []) (lock : Past s.lock)
    (wait : SoleWait s.exchange.completion .running) :
    ∃ s', SynchConsoleOutput.step (putEvent s ch) s = some (.ok s') ∧ Sending s s' ch 8 := by
  obtain ⟨continues, l', assigns, held⟩ := lock.assign
  refine ⟨_, putStep_locked (by simp [pc]) continues assigns,
    locked_sending (by simp [pc]) (by simp [pc]) (m := 7) (by omega) ?_⟩
  exact .sending (by simp [SynchConsoleOutput.locked, pc]) held wait

/-- The character goes to the device, which no request keeps busy. -/
theorem put_sends (inv : OutputInvariant s) (pc : s.pc () = .sending .lock [ch] [])
    (lock : Held s.lock) (wait : SoleWait s.exchange.completion .running) :
    ∃ s', SynchConsoleOutput.step (putEvent s ch) s = some (.ok s') ∧ Sending s s' ch 7 := by
  have place := inv.place ()
  rw [pc] at place
  have free : s.exchange.busy = false := by
    refine (inv.exchange.atRest fun t => ?_).1
    exact place.2
  have body : s.body () = some (.ok (s.issued () .lock [ch] [] ch)) := by
    simp [SynchConsoleOutput.body, pc, SynchConsoleOutput.devicePutChar, Exchange.request, free]
  refine ⟨_, putStep_body (by simp [pc]) lock.pc body, ?_⟩
  exact {
    pc := by simp [SynchConsoleOutput.issued]
    putting := ⟨6, by omega, .testing s.exchange.issued (by simp [SynchConsoleOutput.issued])
      lock wait, by simp [SynchConsoleOutput.issued, Exchange.requested]; omega⟩
    asked := by simp [SynchConsoleOutput.issued, pc] }

/-- `waitFor->P()` finds a unit, at once or after the thread has slept. -/
theorem put_passes {serial : Nat} {p : Phase} (pc : s.pc () = .waiting .lock [ch] [] serial)
    (lock : Held s.lock) (wait : SoleWait s.exchange.completion p) (awake : p ≠ .queued)
    (available : s.exchange.completion.sem.value ≠ 0) (before : 4 < n) :
    ∃ s', SynchConsoleOutput.step (putEvent s ch) s = some (.ok s') ∧ Sending s s' ch n := by
  obtain ⟨pass, running⟩ := wait.pass awake available
  refine ⟨_, putStep_body (by simp [pc]) lock.pc (putBody_passes pc pass), ?_⟩
  exact {
    pc := by simp
    putting := ⟨4, before, .sent serial (by simp) lock running, by simp [Exchange.passed]; omega⟩
    asked := by simp [pc] }

theorem put_sleeps {serial : Nat} (inv : OutputInvariant s)
    (pc : s.pc () = .waiting .lock [ch] [] serial) (lock : Held s.lock)
    (wait : SoleWait s.exchange.completion .running)
    (empty : s.exchange.completion.sem.value = 0) :
    ∃ s', SynchConsoleOutput.step (putEvent s ch) s = some (.ok s') ∧ Sending s s' ch 6 := by
  have place := inv.place ()
  rw [pc] at place
  obtain ⟨pass, queued⟩ := wait.sleep empty
  refine ⟨_, putStep_body (by simp [pc]) lock.pc (putBody_sleeps pc place.2.2 pass), ?_⟩
  exact {
    pc := by simp [pc]
    putting := ⟨5, by omega, .asleep serial pc lock queued, by simp [Exchange.slept]⟩
    asked := by simp [pc] }

theorem put_releases {serial : Nat} (pc : s.pc () = .sending .lock [ch] [serial])
    (lock : Held s.lock) (wait : SoleWait s.exchange.completion .running) :
    ∃ s', SynchConsoleOutput.step (putEvent s ch) s = some (.ok s') ∧ Sending s s' ch 4 := by
  obtain ⟨l', releases, leaving⟩ := lock.release
  have body : s.body () = some (.ok (s.locked () (.returning [ch] [serial]) l')) := by
    simp [SynchConsoleOutput.body, pc, SynchConsoleOutput.leave, SynchConsoleOutput.callLock,
      releases]
  refine ⟨_, putStep_body (by simp [pc]) lock.pc body,
    locked_sending (by simp [pc]) (by simp) (m := 3) (by omega) ?_⟩
  exact .leaving serial (by simp [SynchConsoleOutput.locked]) leaving wait

theorem put_leaves {serial : Nat} (pc : s.pc () = .returning [ch] [serial])
    (lock : Leaving s.lock) (wait : SoleWait s.exchange.completion .running) :
    ∃ s', SynchConsoleOutput.step (putEvent s ch) s = some (.ok s') ∧ Sending s s' ch 3 := by
  obtain ⟨continues, l', frees, free⟩ := lock.free
  refine ⟨_, putStep_locked (by simp [pc]) continues frees,
    locked_sending (by simp [pc]) (by simp [pc]) (m := 2) (by omega) ?_⟩
  exact .returning serial (by simp [SynchConsoleOutput.locked, pc]) free wait

theorem put_returns {serial : Nat} (pc : s.pc () = .returning [ch] [serial]) (lock : Free s.lock)
    (wait : SoleWait s.exchange.completion .running) :
    ∃ s', SynchConsoleOutput.step (putEvent s ch) s = some (.ok s') ∧ Sent s s' ch := by
  have body : s.body () = some (.ok (s.returns () [ch] [serial])) := by
    simp [SynchConsoleOutput.body, pc]
  refine ⟨_, putStep_body (by simp [pc]) lock.pc body, ?_⟩
  exact {
    inside := by simp [pc]
    putting := .out (by simp [SynchConsoleOutput.returns]) lock wait
    asked := rfl
    pending := rfl }

/-- Unless it sleeps, the thread comes nearer to its return, or returns. -/
theorem Putting.step (h : Putting s ch n) (inv : OutputInvariant s)
    (awake : s.exchange.completion.phase () ≠ .queued) :
    ∃ s', SynchConsoleOutput.step (putEvent s ch) s = some (.ok s') ∧
      (Sending s s' ch n ∨ Sent s s' ch) := by
  have inside (goes : ∃ s', SynchConsoleOutput.step (putEvent s ch) s = some (.ok s') ∧
      Sending s s' ch n) : ∃ s', SynchConsoleOutput.step (putEvent s ch) s = some (.ok s') ∧
      (Sending s s' ch n ∨ Sent s s' ch) := by
    obtain ⟨s', steps, sending⟩ := goes
    exact ⟨s', steps, .inl sending⟩
  cases h with
  | out pc lock wait => exact inside (put_calls pc lock wait)
  | entering pc lock wait => exact inside (put_acquires pc lock wait)
  | past pc lock wait => exact inside (put_assigns pc lock wait)
  | sending pc lock wait => exact inside (put_sends inv pc lock wait)
  | testing serial pc lock wait =>
    by_cases empty : s.exchange.completion.sem.value = 0
    · exact inside (put_sleeps inv pc lock wait empty)
    · exact inside (put_passes pc lock wait (by simp) empty (by omega))
  | asleep serial pc lock wait => exact absurd wait.phase awake
  | woken serial pc lock wait =>
    exact inside (put_passes pc lock wait (by simp) (wait.woken rfl) (by omega))
  | sent serial pc lock wait => exact inside (put_releases pc lock wait)
  | leaving serial pc lock wait => exact inside (put_leaves pc lock wait)
  | returning serial pc lock wait =>
    obtain ⟨s', steps, sent⟩ := put_returns pc lock wait
    exact ⟨s', steps, .inr sent⟩

theorem Putting.signalled (h : Putting s ch n) (empty : s.exchange.completion.sem.value = 0)
    (serial : Nat) :
    Putting { s with exchange := s.exchange.interrupted serial } ch n := by
  have signal {p : Phase} (wait : SoleWait s.exchange.completion p) :
      SoleWait s.exchange.completion.signal (if p = .queued then .woken else p) :=
    wait.signal empty
  cases h with
  | out pc lock wait => exact .out pc lock (signal wait)
  | entering pc lock wait => exact .entering pc lock (signal wait)
  | past pc lock wait => exact .past pc lock (signal wait)
  | sending pc lock wait => exact .sending pc lock (signal wait)
  | testing serial pc lock wait => exact .testing serial pc lock (signal wait)
  | asleep serial pc lock wait => exact .woken serial pc lock (signal wait)
  | woken serial pc lock wait => exact .woken serial pc lock (signal wait)
  | sent serial pc lock wait => exact .sent serial pc lock (signal wait)
  | leaving serial pc lock wait => exact .leaving serial pc lock (signal wait)
  | returning serial pc lock wait => exact .returning serial pc lock (signal wait)

end Output

section Echo

/-- The characters before the end of the input. -/
def typed (input : List Byte) : List Byte := input.takeWhile (· ≠ EOF)

theorem delivered_typed (input : List Byte) : delivered input = typed input ++ [EOF] := by
  induction input with
  | nil => rfl
  | cons c rest ih =>
    rw [delivered_cons]
    by_cases last : c = EOF
    · simp [typed, last]
    · rw [if_neg last, ih]
      simp [typed, last]

theorem not_typed (input : List Byte) : EOF ∉ typed input := by
  intro eof
  have plain := List.mem_takeWhile_imp eof
  simp at plain

/-- A beginning of what is delivered without an `EOF` was typed. -/
theorem prefix_typed {input xs : List Byte} (front : xs <+: delivered input) (chars : EOF ∉ xs) :
    xs <+: typed input := by
  rw [delivered_typed] at front
  rcases List.prefix_concat_iff.mp front with whole | front
  · exact absurd (by simp [whole]) chars
  · exact front

theorem eq_typed {input xs : List Byte} (front : xs ++ [EOF] <+: delivered input) :
    xs = typed input := by
  rw [delivered_typed] at front
  rcases List.prefix_concat_iff.mp front with whole | front
  · exact (List.append_inj' whole rfl).1
  · exact absurd (front.subset (by simp)) (not_typed input)

/-- The display is not in use. -/
def Silent (s : SynchConsoleOutput Unit) : Prop := ∀ ch, Putting s ch 10

theorem Putting.silent {s : SynchConsoleOutput Unit} {ch : Byte} (h : Putting s ch 10) :
    Silent s := by
  cases h with
  | out pc lock wait => exact fun ch => .out pc lock wait

/-- Where the thread stands, what it has read and handed on, and how many steps of its own and
interrupts may come until it calls `GetChar` the next time. -/
inductive Standing (s : Echo) : Nat → Prop
  | getting (n : Nat) (pc : s.pc = .getting) (place : Getting s.input n) (silent : Silent s.output)
      (handed : s.input.returned.map Prod.snd = s.output.asked ()) : Standing s (2 * n)
  | putting (ch : Byte) (n : Nat) (pc : s.pc = .putting ch) (char : ch ≠ EOF)
      (place : Putting s.output ch n) (outside : Getting s.input 9)
      (handed : s.input.returned.map Prod.snd =
        s.output.asked () ++ if s.output.pc () = .idle then [ch] else []) :
      Standing s (20 + 2 * n)
  | done (pc : s.pc = .done) (silent : Silent s.output) (outside : Getting s.input 9)
      (handed : s.input.returned.map Prod.snd = s.output.asked () ++ [EOF]) : Standing s 0

/-- What may still happen, at most, when the thread stands at `k`. -/
def remaining (input : List Byte) (s : Echo) (k : Nat) : Nat :=
  k + 50 * ((delivered input).length - s.input.returned.length) +
    2 * ((delivered input).length - s.input.taken.length) + s.input.pending +
    s.output.exchange.pending.length

structure EchoInvariant (input : List Byte) (s : Echo) (n : Nat) : Prop where
  delivery : Delivery input s.input
  took : Took s.input
  reached : (consoleOutputMachine Unit).ReachableUnder SynchConsoleOutput.Separate s.output
  chars : EOF ∉ s.output.asked ()
  standing : ∃ k, Standing s k ∧ remaining input s k ≤ n

variable {input : List Byte} {s s' : Echo} {n : Nat}

theorem Delivery.taken_prefix {i : SynchConsoleInput Unit} (h : Delivery input i) :
    i.taken <+: delivered input := by
  cases h with
  | polling p c u split => exact ⟨_, split.symm⟩
  | holding p u split => exact ⟨_, split.symm⟩
  | finished p u whole => exact whole ▸ List.prefix_rfl

theorem Took.returned_prefix {i : SynchConsoleInput Unit} (h : Took i) :
    i.returned.map Prod.snd <+: i.taken := by
  rw [h]
  exact List.prefix_append _ _

theorem wait_initial (value : Int) : SoleWait (.initial value : SemState Unit) .running :=
  ⟨rfl, rfl, by simp, by simp⟩

theorem initial_invariant (input : List Byte) :
    EchoInvariant input (.initial input) (52 * input.length + 71) := by
  have length : (delivered input).length ≤ input.length + 1 := by
    rw [delivered_typed, List.length_append, List.length_singleton]
    have := (List.takeWhile_prefix (· ≠ EOF) (l := input)).length_le
    exact Nat.succ_le_succ this
  refine ⟨?_, rfl, .init rfl, List.not_mem_nil, 18, ?_, ?_⟩
  · exact .polling rfl rfl ⟨rfl, fun _ pc => by cases pc⟩ rfl
  · have silent : Silent (Echo.initial input).output :=
      fun ch => .out rfl free_initial (wait_initial 0)
    exact .getting 9 rfl (.out rfl free_initial (wait_initial 0)) silent rfl
  · change 18 + 50 * ((delivered input).length - 0) + 2 * ((delivered input).length - 0) + 1 + 0 ≤ _
    omega

/-- A single thread is never on both ways to the device. -/
theorem sole_separate (e : OutputEvent Unit) (s : SynchConsoleOutput Unit) :
    SynchConsoleOutput.Separate e s := by
  cases e with
  | call | interrupt => trivial
  | step t =>
    intro path issues u other awaits
    obtain rfl : t = u := rfl
    unfold SynchConsoleOutput.issues at issues
    split at issues
    next idle pc => rw [pc] at awaits; cases awaits
    · cases issues

/-- The thread sleeps in `GetChar` only while a poll of the keyboard is to come. -/
theorem EchoInvariant.polling (h : EchoInvariant input s n) (pc : s.input.pc () = .waiting)
    (wait : SoleWait s.input.waitFor .queued)
    (handed : s.input.returned.map Prod.snd = s.output.asked ()) :
    s.input.pending = 1 ∧ s.input.incoming = EOF := by
  cases h.delivery with
  | polling pending incoming unit split => exact ⟨pending, incoming⟩
  | holding pending unit split =>
    rcases unit with ⟨one, -⟩ | ⟨-, t, taking, -⟩
    · rw [wait.asleep rfl] at one
      cases one
    · obtain rfl : t = () := rfl
      rw [pc] at taking
      cases taking
  | finished pending unit whole =>
    have took := h.took
    unfold Took at took
    rw [pc, handed, ← whole, delivered_typed] at took
    have eof : EOF ∈ s.output.asked () := by
      have last : EOF ∈ typed input ++ [EOF] := by simp
      rw [took] at last
      simpa [InputPc.held] using last
    exact absurd eof h.chars

/-- A scheduled interrupt of the keyboard finds nothing buffered. -/
theorem EchoInvariant.unbuffered (h : EchoInvariant input s n) (scheduled : 0 < s.input.pending) :
    s.input.pending = 1 ∧ s.input.incoming = EOF ∧ s.input.waitFor.sem.value = 0 := by
  cases h.delivery with
  | polling pending incoming unit split => exact ⟨pending, incoming, unit.1⟩
  | holding pending unit split => omega
  | finished pending unit whole => omega

theorem Getting.sleeps {i : SynchConsoleInput Unit} {k : Nat} (place : Getting i k)
    (asleep : i.waitFor.phase () = .queued) :
    i.pc () = .waiting ∧ Held i.lock ∧ SoleWait i.waitFor .queued := by
  cases place with
  | asleep pc lock wait => exact ⟨pc, lock, wait⟩
  | out pc lock wait | past pc lock wait | testing pc lock wait | woken pc lock wait
  | taking pc lock wait | releasing position ch pc lock wait | leaving position ch pc lock wait
  | returning position ch pc lock wait =>
    rw [wait.phase] at asleep
    cases asleep

theorem Putting.sleeps {o : SynchConsoleOutput Unit} {ch : Byte} {k : Nat}
    (place : Putting o ch k) (asleep : o.exchange.completion.phase () = .queued) :
    ∃ serial, o.pc () = .waiting .lock [ch] [] serial ∧ Held o.lock ∧
      SoleWait o.exchange.completion .queued := by
  cases place with
  | asleep serial pc lock wait => exact ⟨serial, pc, lock, wait⟩
  | out pc lock wait | entering pc lock wait | past pc lock wait | sending pc lock wait
  | testing serial pc lock wait | woken serial pc lock wait | sent serial pc lock wait
  | leaving serial pc lock wait | returning serial pc lock wait =>
    rw [wait.phase] at asleep
    cases asleep

/-- A thread that sleeps in `GetChar` takes no step. -/
theorem get_asleep {i : SynchConsoleInput Unit} (pc : i.pc () = .waiting) (lock : Held i.lock)
    (wait : SoleWait i.waitFor .queued) : SynchConsoleInput.step (getEvent i) i = none := by
  have stuck : i.waitFor.pass () = none := by simp [SemState.pass, SemState.next, wait.phase]
  simp [getEvent, pc, SynchConsoleInput.step, lock.pc, SynchConsoleInput.body, stuck]

theorem put_asleep {o : SynchConsoleOutput Unit} {ch : Byte} {serial : Nat}
    (pc : o.pc () = .waiting .lock [ch] [] serial) (lock : Held o.lock)
    (wait : SoleWait o.exchange.completion .queued) :
    SynchConsoleOutput.step (putEvent o ch) o = none := by
  have stuck : o.exchange.completion.pass () = none := by
    simp [SemState.pass, SemState.next, wait.phase]
  simp [putEvent, pc, SynchConsoleOutput.step, lock.pc, SynchConsoleOutput.body, Exchange.wait,
    stuck]

/-- The thread sleeps in `PutChar` only while the display's interrupt is to come. -/
theorem outstanding {o : SynchConsoleOutput Unit} {ch : Byte} {serial : Nat}
    (inv : OutputInvariant o) (pc : o.pc () = .waiting .lock [ch] [] serial)
    (wait : SoleWait o.exchange.completion .queued) : o.exchange.pending = [serial] := by
  have place := inv.place ()
  rw [pc] at place
  rcases inv.exchange.outstanding () serial place.2.2 with ⟨pending, -⟩ | ⟨-, -, one, -⟩
  · exact pending
  · rw [wait.asleep rfl] at one
    cases one

/-- When an interrupt of the display is to come, it has not been signalled yet. -/
theorem unsignalled {o : SynchConsoleOutput Unit} {serial : Nat} (inv : OutputInvariant o)
    (scheduled : serial ∈ o.exchange.pending) :
    o.exchange.pending = [serial] ∧ o.exchange.completion.sem.value = 0 := by
  cases waits : o.exchange.waiting () with
  | none =>
    obtain ⟨-, none, -⟩ := inv.exchange.atRest fun t => waits
    rw [none] at scheduled
    cases scheduled
  | some first =>
    rcases inv.exchange.outstanding () first waits with ⟨pending, value⟩ | ⟨-, none, -⟩
    · rw [pending] at scheduled
      rw [List.mem_singleton.mp scheduled]
      exact ⟨pending, value⟩
    · rw [none] at scheduled
      cases scheduled

theorem input_step {e : InputEvent Unit} {i i' : SynchConsoleInput Unit}
    (step : SynchConsoleInput.step e i = some (.ok i')) : i.Effect e i' := by
  have next : (consoleInputMachine Unit []).next e i = some i' :=
    Exec.bind_toOption_eq_some.mpr step
  exact SynchConsoleInput.next_effect next

/-- What the keyboard's interrupt does when it finds a character or the end of the input. -/
structure Signalled (i i' : SynchConsoleInput Unit) : Prop where
  pc : i'.pc = i.pc
  lock : i'.lock = i.lock
  waitFor : i'.waitFor = i.waitFor.signal
  taken : i'.taken = i.taken
  returned : i'.returned = i.returned
  pending : i'.pending = 0

theorem interrupt_true {i : SynchConsoleInput Unit} (pending : i.pending = 1)
    (incoming : i.incoming = EOF) :
    ∃ i', SynchConsoleInput.step (.interrupt true) i = some (.ok i') ∧ Signalled i i' := by
  have empty : i.incoming.toInt = -1 := (SynchConsoleInput.eof_iff _).mpr incoming
  cases front : i.remaining with
  | nil =>
    refine ⟨{ i with pending := 0, ended := true }.callBack, ?_, ?_⟩
    · simp [SynchConsoleInput.step, pending, SynchConsoleInput.deviceCallBack, empty, front]
      rfl
    · exact ⟨rfl, rfl, rfl, rfl, rfl, rfl⟩
  | cons c rest =>
    refine ⟨{ i with pending := 0, incoming := c, remaining := rest }.callBack, ?_, ?_⟩
    · simp [SynchConsoleInput.step, pending, SynchConsoleInput.deviceCallBack, empty, front]
      rfl
    · exact ⟨rfl, rfl, rfl, rfl, rfl, rfl⟩

theorem interrupt_false {i : SynchConsoleInput Unit} (pending : i.pending = 1)
    (incoming : i.incoming = EOF) :
    SynchConsoleInput.step (.interrupt false) i = some (.ok i) := by
  cases i
  simp only at pending incoming
  subst pending incoming
  rfl

theorem Standing.signalled {k : Nat} {i' : SynchConsoleInput Unit} (h : Standing s k)
    (empty : s.input.waitFor.sem.value = 0) (effect : Signalled s.input i') :
    Standing { s with input := i' } k := by
  have moved {m : Nat} (place : Getting s.input m) : Getting i' m :=
    place.signalled empty effect.pc effect.lock effect.waitFor
  have returned : i'.returned = s.input.returned := effect.returned
  cases h with
  | getting m pc place silent handed =>
    exact .getting m pc (moved place) silent (by simpa only [returned] using handed)
  | putting ch m pc char place outside handed =>
    exact .putting ch m pc char place (moved outside) (by simpa only [returned] using handed)
  | done pc silent outside handed =>
    exact .done pc silent (moved outside) (by simpa only [returned] using handed)

/-- A poll that finds nothing is the one event that leaves everything to be done. -/
def EchoEvent.cost : EchoEvent → Nat
  | .keyboard false => 0
  | _ => 1

/-- What holds after an event: no assertion failed, and there is less to be done. -/
def Goes (input : List Byte) (n : Nat) (e : EchoEvent) (r : Except EchoFault Echo) : Prop :=
  ∃ s' n', r = .ok s' ∧ EchoInvariant input s' n' ∧ n' + e.cost ≤ n

theorem Goes.paid {e : EchoEvent} {k : Nat} (delivery : Delivery input s'.input)
    (took : Took s'.input)
    (reached : (consoleOutputMachine Unit).ReachableUnder SynchConsoleOutput.Separate s'.output)
    (chars : EOF ∉ s'.output.asked ()) (standing : Standing s' k)
    (less : remaining input s' k + 1 ≤ n) (cost : e.cost = 1) : Goes input n e (.ok s') := by
  refine ⟨s', n - 1, rfl, ?_, by omega⟩
  exact {
    delivery
    took
    reached
    chars
    standing := ⟨k, standing, by omega⟩ }

theorem EchoInvariant.keyboard (h : EchoInvariant input s n) {ready : Bool}
    {r : Except EchoFault Echo} (happens : Echo.step (.keyboard ready) s = some r) :
    Goes input n (.keyboard ready) r := by
  obtain ⟨outcome, fires, rfl⟩ := Option.map_eq_some_iff.mp happens
  have scheduled : 0 < s.input.pending := by
    by_contra idle
    simp [SynchConsoleInput.step, idle] at fires
  obtain ⟨pending, incoming, value⟩ := h.unbuffered scheduled
  cases ready with
  | false =>
    rw [interrupt_false pending incoming] at fires
    cases fires
    exact ⟨s, n, rfl, h, le_rfl⟩
  | true =>
    obtain ⟨i', step, effect⟩ := interrupt_true pending incoming
    rw [step] at fires
    cases fires
    obtain ⟨k, standing, within⟩ := h.standing
    have less : remaining input { s with input := i' } k + 1 = remaining input s k := by
      simp only [remaining, effect.taken, effect.returned, effect.pending, pending]
      omega
    have stands := standing.signalled value effect
    change Goes input n (.keyboard true) (.ok { s with input := i' })
    exact .paid (h.delivery.next (input_step step)) (h.took.next (input_step step)) h.reached
      h.chars stands (by omega) rfl

theorem output_step {e : OutputEvent Unit} {o o' : SynchConsoleOutput Unit}
    (reached : (consoleOutputMachine Unit).ReachableUnder SynchConsoleOutput.Separate o)
    (step : SynchConsoleOutput.step e o = some (.ok o')) :
    (consoleOutputMachine Unit).ReachableUnder SynchConsoleOutput.Separate o' :=
  reached.step (sole_separate e o) (Exec.bind_toOption_eq_some.mpr step)

theorem EchoInvariant.display (h : EchoInvariant input s n) {serial : Nat}
    {r : Except EchoFault Echo} (happens : Echo.step (.display serial) s = some r) :
    Goes input n (.display serial) r := by
  obtain ⟨outcome, fires, rfl⟩ := Option.map_eq_some_iff.mp happens
  have step := fires
  obtain ⟨exchange, interrupt, rfl⟩ := Option.map_eq_some_iff.mp fires
  obtain ⟨scheduled, rfl⟩ := Exchange.interrupt_eq_some.mp interrupt
  obtain ⟨only, value⟩ := unsignalled (OutputInvariant.of_reachable h.reached).1 scheduled
  obtain ⟨k, standing, within⟩ := h.standing
  have less : remaining input { s with
      output := { s.output with exchange := s.output.exchange.interrupted serial } } k + 1 =
      remaining input s k := by
    simp [remaining, Exchange.interrupted, only]
  have stands : Standing { s with
      output := { s.output with exchange := s.output.exchange.interrupted serial } } k := by
    cases standing with
    | getting m pc place silent handed =>
      exact .getting m pc place (fun ch => (silent ch).signalled value serial) handed
    | putting ch m pc char place outside handed =>
      exact .putting ch m pc char (place.signalled value serial) outside handed
    | done pc silent outside handed =>
      exact .done pc (fun ch => (silent ch).signalled value serial) outside handed
  change Goes input n (.display serial) (.ok { s with
    output := { s.output with exchange := s.output.exchange.interrupted serial } })
  exact .paid h.delivery h.took (output_step h.reached step) h.chars stands (by omega) rfl

theorem Getting.outside {i : SynchConsoleInput Unit} (h : Getting i 9) : i.pc () = .idle := by
  cases h with
  | out pc lock wait => exact pc

theorem Silent.idle {o : SynchConsoleOutput Unit} (h : Silent o) : o.pc () = .idle := by
  cases h EOF with
  | out pc lock wait => exact pc

theorem got_inside {i : SynchConsoleInput Unit} (inside : i.pc () ≠ .idle) :
    s.got i = { s with input := i } := by
  unfold Echo.got
  split
  next idle _ => exact absurd idle inside
  · rfl

theorem got_returned {i : SynchConsoleInput Unit} {returned : List (Nat × Byte)} {position : Nat}
    {ch : Byte} (idle : i.pc () = .idle) (last : i.returned = returned ++ [(position, ch)]) :
    s.got i = { s with
      input := i
      pc := if ch = EOF then .done else .putting ch } := by
  unfold Echo.got
  rw [idle, last, List.getLast?_concat]
  by_cases eof : ch = EOF
  · simp [eof, (SynchConsoleInput.eof_iff EOF).mpr rfl]
  · have char : ch.toInt ≠ -1 := fun same => eof ((SynchConsoleInput.eof_iff ch).mp same)
    simp [eof, char]

/-- A step of the thread in `GetChar`. -/
theorem EchoInvariant.gets (h : EchoInvariant input s n) {m : Nat} (pc : s.pc = .getting)
    (place : Getting s.input m) (silent : Silent s.output)
    (handed : s.input.returned.map Prod.snd = s.output.asked ())
    (within : remaining input s (2 * m) ≤ n) {r : Except EchoFault Echo}
    (happens : Echo.step .step s = some r) : Goes input n .step r := by
  simp only [Echo.step, pc] at happens
  change (SynchConsoleInput.step (getEvent s.input) s.input).map _ = some r at happens
  by_cases asleep : s.input.waitFor.phase () = .queued
  · obtain ⟨waiting, lock, wait⟩ := place.sleeps asleep
    rw [get_asleep waiting lock wait] at happens
    cases happens
  obtain ⟨i', step, moves⟩ := place.step asleep
  rw [step] at happens
  cases happens
  change Goes input n .step (.ok (s.got i'))
  have delivery := h.delivery.next (input_step step)
  have took := h.took.next (input_step step)
  have taken := delivery.taken_prefix.length_le
  have returned := took.returned_prefix.length_le
  rw [List.length_map] at returned
  rcases moves with inside | returns
  · obtain ⟨m', less, place'⟩ := inside.getting
    rw [got_inside inside.pc]
    have supply := inside.supply
    have grows := inside.taken
    have fewer : remaining input { s with input := i' } (2 * m') + 1 ≤
        remaining input s (2 * m) := by
      simp only [remaining, inside.returned]
      omega
    have stands : Standing { s with input := i' } (2 * m') :=
      .getting m' pc place' silent (by rw [inside.returned, handed])
    exact .paid delivery took h.reached h.chars stands (by omega) rfl
  · obtain ⟨position, ch, -, last⟩ := returns.returned
    rw [got_returned returns.getting.outside last]
    have texts : i'.returned.map Prod.snd = s.output.asked () ++ [ch] := by
      rw [last, List.map_append, handed]
      rfl
    have lengths : i'.returned.length = s.input.returned.length + 1 := by simp [last]
    by_cases eof : ch = EOF
    · rw [if_pos eof]
      have fewer : remaining input { s with input := i', pc := .done } 0 + 1 ≤
          remaining input s (2 * m) := by
        simp only [remaining, lengths, returns.taken, returns.pending]
        omega
      have stands : Standing { s with input := i', pc := .done } 0 :=
        .done rfl silent returns.getting (by rw [texts, eof])
      exact .paid delivery took h.reached h.chars stands (by omega) rfl
    · rw [if_neg eof]
      have fewer : remaining input { s with input := i', pc := .putting ch } (20 + 2 * 10) + 1 ≤
          remaining input s (2 * m) := by
        simp only [remaining, lengths, returns.taken, returns.pending]
        omega
      have stands : Standing { s with input := i', pc := .putting ch } (20 + 2 * 10) :=
        .putting ch 10 rfl eof (silent ch) returns.getting (by rw [texts, if_pos silent.idle])
      exact .paid delivery took h.reached h.chars stands (by omega) rfl

/-- A step of the thread in `PutChar`. -/
theorem EchoInvariant.puts (h : EchoInvariant input s n) {ch : Byte} {m : Nat}
    (pc : s.pc = .putting ch) (char : ch ≠ EOF) (place : Putting s.output ch m)
    (outside : Getting s.input 9)
    (handed : s.input.returned.map Prod.snd =
      s.output.asked () ++ if s.output.pc () = .idle then [ch] else [])
    (within : remaining input s (20 + 2 * m) ≤ n) {r : Except EchoFault Echo}
    (happens : Echo.step .step s = some r) : Goes input n .step r := by
  simp only [Echo.step, pc] at happens
  change (SynchConsoleOutput.step (putEvent s.output ch) s.output).map _ = some r at happens
  by_cases asleep : s.output.exchange.completion.phase () = .queued
  · obtain ⟨serial, waiting, lock, wait⟩ := place.sleeps asleep
    rw [put_asleep waiting lock wait] at happens
    cases happens
  obtain ⟨o', step, moves⟩ := place.step (OutputInvariant.of_reachable h.reached).1 asleep
  rw [step] at happens
  cases happens
  change Goes input n .step (.ok (s.put o'))
  have reached := output_step h.reached step
  rcases moves with sending | sent
  · obtain ⟨m', less, place', budget⟩ := sending.putting
    have same : s.put o' = { s with output := o' } := by simp [Echo.put, sending.pc]
    have chars : EOF ∉ o'.asked () := by
      rw [sending.asked]
      intro eof
      rcases List.mem_append.mp eof with old | new
      · exact h.chars old
      · split at new
        · exact char (List.mem_singleton.mp new).symm
        · cases new
    have stands : Standing { s with output := o' } (20 + 2 * m') := by
      refine .putting ch m' pc char place' outside ?_
      rw [handed, sending.asked, if_neg sending.pc, List.append_nil]
    have fewer : remaining input { s with output := o' } (20 + 2 * m') + 1 ≤
        remaining input s (20 + 2 * m) := by
      simp only [remaining]
      omega
    rw [same]
    exact .paid h.delivery h.took reached chars stands (by omega) rfl
  · have silent := sent.putting.silent
    have same : s.put o' = { s with output := o', pc := .getting } := by
      simp [Echo.put, silent.idle]
    have stands : Standing { s with output := o', pc := .getting } (2 * 9) := by
      refine .getting 9 rfl outside silent ?_
      rw [handed, if_neg sent.inside, List.append_nil, sent.asked]
    have fewer : remaining input { s with output := o', pc := .getting } (2 * 9) + 1 ≤
        remaining input s (20 + 2 * m) := by
      simp only [remaining, sent.pending]
      omega
    have chars : EOF ∉ o'.asked () := by
      rw [sent.asked]
      exact h.chars
    rw [same]
    exact .paid h.delivery h.took reached chars stands (by omega) rfl

/-- No event makes an assertion fail, and all but the vain polls are paid for. -/
theorem EchoInvariant.goes (h : EchoInvariant input s n) {e : EchoEvent}
    {r : Except EchoFault Echo} (happens : Echo.step e s = some r) : Goes input n e r := by
  cases e with
  | keyboard ready => exact h.keyboard happens
  | display serial => exact h.display happens
  | step =>
    obtain ⟨k, standing, within⟩ := h.standing
    cases standing with
    | getting m pc place silent handed => exact h.gets pc place silent handed within happens
    | putting ch m pc char place outside handed =>
      exact h.puts pc char place outside handed within happens
    | done pc silent outside handed =>
      simp [Echo.step, pc] at happens

/-- Until the thread is past its loop, it takes a step or one of the devices wakes it. -/
theorem EchoInvariant.goes_on (h : EchoInvariant input s n) (unfinished : s.pc ≠ .done) :
    ∃ e s', e.cost = 1 ∧ Echo.step e s = some (.ok s') := by
  obtain ⟨k, standing, -⟩ := h.standing
  cases standing with
  | done pc silent outside handed => exact absurd pc unfinished
  | getting m pc place silent handed =>
    by_cases asleep : s.input.waitFor.phase () = .queued
    · obtain ⟨waiting, -, wait⟩ := place.sleeps asleep
      obtain ⟨pending, incoming⟩ := h.polling waiting wait handed
      obtain ⟨i', step, -⟩ := interrupt_true pending incoming
      refine ⟨.keyboard true, { s with input := i' }, rfl, ?_⟩
      simp only [Echo.step, step]
      rfl
    · obtain ⟨i', step, -⟩ := place.step asleep
      refine ⟨.step, s.got i', rfl, ?_⟩
      simp only [Echo.step, pc]
      change (SynchConsoleInput.step (getEvent s.input) s.input).map _ = _
      rw [step]
      rfl
  | putting ch m pc char place outside handed =>
    have inv := (OutputInvariant.of_reachable h.reached).1
    by_cases asleep : s.output.exchange.completion.phase () = .queued
    · obtain ⟨serial, waiting, -, wait⟩ := place.sleeps asleep
      have scheduled := outstanding inv waiting wait
      refine ⟨.display serial, { s with
        output := { s.output with exchange := s.output.exchange.interrupted serial } }, rfl, ?_⟩
      simp only [Echo.step, SynchConsoleOutput.step, Exchange.interrupt, scheduled,
        List.mem_cons_self, if_true]
      rfl
    · obtain ⟨o', step, -⟩ := place.step inv asleep
      refine ⟨.step, s.put o', rfl, ?_⟩
      simp only [Echo.step, pc]
      change (SynchConsoleOutput.step (putEvent s.output ch) s.output).map _ = _
      rw [step]
      rfl

/-- What has been asked of the display was typed. -/
theorem EchoInvariant.asked_typed (h : EchoInvariant input s n) :
    s.output.asked () <+: typed input := by
  have returned := h.took.returned_prefix.trans h.delivery.taken_prefix
  apply prefix_typed _ h.chars
  obtain ⟨k, standing, -⟩ := h.standing
  cases standing with
  | getting m pc place silent handed => exact handed ▸ returned
  | putting ch m pc char place outside handed =>
    rw [handed] at returned
    exact (List.prefix_append _ _).trans returned
  | done pc silent outside handed =>
    rw [handed] at returned
    exact (List.prefix_append _ _).trans returned

theorem text_unsent (inv : OutputInvariant s.output) :
    s.text ++ (s.output.pc ()).unsent = s.output.asked () := by
  have order := inv.order ()
  rwa [List.filter_eq_self.mpr (by simp)] at order

theorem EchoInvariant.text (h : EchoInvariant input s n) : s.text <+: typed input := by
  have order := text_unsent (OutputInvariant.of_reachable h.reached).1
  exact (order ▸ List.prefix_append _ _ : s.text <+: s.output.asked ()).trans h.asked_typed

theorem EchoInvariant.done (h : EchoInvariant input s n) (finished : s.pc = .done) :
    s.text = typed input := by
  have order := text_unsent (OutputInvariant.of_reachable h.reached).1
  obtain ⟨k, standing, -⟩ := h.standing
  cases standing with
  | getting m pc place silent handed =>
    rw [finished] at pc
    cases pc
  | putting ch m pc char place outside handed =>
    rw [finished] at pc
    cases pc
  | done pc silent outside handed =>
    have returned := h.took.returned_prefix.trans h.delivery.taken_prefix
    rw [handed] at returned
    rw [silent.idle] at order
    rw [← eq_typed returned, ← order]
    exact (List.append_nil _).symm

/-- The events of a run that leave less to be done. -/
def useful (es : List EchoEvent) : List EchoEvent := es.filter (· ≠ .keyboard false)

theorem run_invariant (es : List EchoEvent) (h : EchoInvariant input s n)
    (run : (echoMachine input).run es s = some s') :
    ∃ n', EchoInvariant input s' n' ∧ n' + (useful es).length ≤ n := by
  induction es generalizing s n with
  | nil =>
    cases run
    exact ⟨n, h, le_rfl⟩
  | cons e es ih =>
    obtain ⟨mid, next, run⟩ := Option.bind_eq_some_iff.mp run
    obtain ⟨mid', n₁, same, inv, paid⟩ := h.goes (Exec.bind_toOption_eq_some.mp next)
    cases same
    obtain ⟨n', inv', bound⟩ := ih inv run
    refine ⟨n', inv', ?_⟩
    have counted : (useful (e :: es)).length = e.cost + (useful es).length := by
      unfold useful
      rw [List.filter_cons]
      cases e with
      | keyboard ready =>
        cases ready with
        | false => simp [EchoEvent.cost]
        | true => simp [EchoEvent.cost, Nat.add_comm]
      | step | display serial => simp [EchoEvent.cost, Nat.add_comm]
    omega

/-- What a run of the test is worth: the display shows a beginning of what was typed, and all of
it in the end; the end is reached unless the keyboard is polled in vain for ever. -/
structure Echoes (input : List Byte) (es : List EchoEvent) (s : Echo) : Prop where
  safe : ∀ e fault, Echo.step e s ≠ some (.error fault)
  text : s.text <+: typed input
  whole : s.pc = .done → s.text = typed input
  goes_on : s.pc ≠ .done → ∃ e s', e ≠ .keyboard false ∧ Echo.step e s = some (.ok s')
  bounded : (useful es).length ≤ 52 * input.length + 71

end Echo

/-- Whatever is typed, whenever the interrupts come and however often the keyboard is polled
in vain. -/
theorem console_test_echoes (input : List Byte) (es : List EchoEvent) (s : Echo)
    (run : (echoMachine input).run es (.initial input) = some s) : Echoes input es s := by
  obtain ⟨n, inv, bound⟩ := run_invariant es (initial_invariant input) run
  exact {
    safe := by
      intro e fault fails
      obtain ⟨s', n', same, -⟩ := inv.goes fails
      cases same
    text := inv.text
    whole := inv.done
    goes_on := by
      intro unfinished
      obtain ⟨e, s', cost, step⟩ := inv.goes_on unfinished
      refine ⟨e, s', ?_, step⟩
      rintro rfl
      cases cost
    bounded := by omega }

/-- The keyboard is polled in vain once, and the second character ends the test. -/
def echoOne : List EchoEvent :=
  List.replicate 3 .step ++ [.keyboard false, .keyboard true] ++ List.replicate 10 .step ++
    [.keyboard true, .display 0] ++ List.replicate 11 .step

theorem console_test_echoes_one :
    ∃ s, (echoMachine [0x41, 0xFF, 0x42]).run echoOne (.initial [0x41, 0xFF, 0x42]) = some s ∧
      s.pc = .done ∧ s.text = [0x41] := by
  have replay : ((echoMachine [0x41, 0xFF, 0x42]).run echoOne
      (.initial [0x41, 0xFF, 0x42])).map Echo.pc = some .done := by decide +kernel
  obtain ⟨s, run, finished⟩ := Option.map_eq_some_iff.mp replay
  have echoes := console_test_echoes [0x41, 0xFF, 0x42] echoOne s run
  exact ⟨s, run, finished, echoes.whole finished⟩

end NachOS.Userprog
