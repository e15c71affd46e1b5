import NachOS.Threads.Driver

/-!
# Console output (machine/console.cc:152-173, userprog/synchconsole.cc:97-119,165-181)

`ConsoleOutput::PutChar` asserts that no write is in progress, writes the
character to the host, marks the device busy and schedules an interrupt, whose
handler clears the mark and performs `waitFor->V()`.

`SynchConsoleOutput` has two ways to the device: `PutChar` holds `lock` around one
character, `Write` holds the semaphore `WLineBlock` around a whole buffer. Both
wait for their characters on the one semaphore `waitFor`. `WLineBlock` is taken to
be a semaphore of initial value 1; the constructor never creates it.

`output` is what the device has written, with the threads that wrote it; the
position of a character in it is the number of its request.
-/
namespace NachOS.Userprog
open NachOS.Lib NachOS.Threads

/-- Which object a call holds while it uses the device. -/
inductive OutputPath where
  | lock
  | line
  deriving DecidableEq

inductive OutputCall where
  | putChar (ch : Byte)
  | write (buffer : Buf) (numBytes : Int)

namespace OutputCall

def path : OutputCall → OutputPath
  | putChar _ => .lock
  | write _ _ => .line

/-- The characters the call hands to the device, in order. -/
def chars : OutputCall → List Byte
  | putChar ch => [ch]
  | write buffer numBytes => (List.range numBytes.toNat).map buffer

end OutputCall

/-- Where a thread stands inside `PutChar` or `Write`, with the characters of the
call and the numbers of the requests it has waited for. -/
inductive OutputPc where
  | idle
  /-- Before `lock->Acquire()`, or before or in `WLineBlock->P()`. -/
  | entering (path : OutputPath) (chars : List Byte)
  /-- In or after `lock->Acquire()`, or at the loop test of `Write`. -/
  | sending (path : OutputPath) (chars : List Byte) (made : List Nat)
  /-- Before or in `waitFor->P()`. -/
  | waiting (path : OutputPath) (chars : List Byte) (made : List Nat) (serial : Nat)
  /-- In or after `lock->Release()`, or after `WLineBlock->V()`, before the return. -/
  | returning (chars : List Byte) (made : List Nat)
  deriving DecidableEq

/-- A call that returned. -/
structure OutputReturn (Thread : Type) where
  thread : Thread
  chars : List Byte
  made : List Nat
  deriving DecidableEq

structure SynchConsoleOutput (Thread : Type) where
  lock : LockState Thread
  wLineBlock : SemState Thread
  /-- `putBusy`, the scheduled interrupts and `waitFor`. -/
  exchange : Exchange Thread
  pc : Thread → OutputPc
  output : List (Thread × Byte)
  /-- The characters of all calls of a thread so far. -/
  asked : Thread → List Byte
  returned : List (OutputReturn Thread)

inductive OutputEvent (Thread : Type) where
  | call (t : Thread) (call : OutputCall)
  | step (t : Thread)
  | interrupt (serial : Nat)

/-- The thread that takes the step. -/
def OutputEvent.thread {Thread : Type} : OutputEvent Thread → Option Thread
  | call t _ | step t => some t
  | interrupt _ => none

section Machine

variable {Thread : Type} [DecidableEq Thread]

namespace SynchConsoleOutput

def initial : SynchConsoleOutput Thread where
  lock := .initial
  wLineBlock := .initial 1
  exchange := .initial
  pc := fun _ => .idle
  output := []
  asked := fun _ => []
  returned := []

def called (s : SynchConsoleOutput Thread) (t : Thread) (call : OutputCall) :
    SynchConsoleOutput Thread :=
  { s with
    pc := Function.update s.pc t (.entering call.path call.chars)
    asked := Function.update s.asked t (s.asked t ++ call.chars) }

def locked (s : SynchConsoleOutput Thread) (t : Thread) (pc : OutputPc) (lock : LockState Thread) :
    SynchConsoleOutput Thread :=
  { s with lock, pc := Function.update s.pc t pc }

/-- A step of the lock's code, after which `t` is at `pc`. -/
def callLock (s : SynchConsoleOutput Thread) (t : Thread) (e : LockEvent Thread) (pc : OutputPc) :
    Option (SynchConsoleOutput Thread) :=
  (LockState.next e s.lock).map (s.locked t pc)

/-- A pass of `WLineBlock->P()` left the semaphore as `wLineBlock`. -/
def lined (s : SynchConsoleOutput Thread) (t : Thread) (chars : List Byte)
    (wLineBlock : SemState Thread) : SynchConsoleOutput Thread :=
  { s with
    wLineBlock
    pc := if wLineBlock.phase t = .running then Function.update s.pc t (.sending .line chars [])
      else s.pc }

/-- `ConsoleOutput::PutChar` past its assertion. -/
def issued (s : SynchConsoleOutput Thread) (t : Thread) (path : OutputPath) (chars : List Byte)
    (made : List Nat) (ch : Byte) : SynchConsoleOutput Thread :=
  { s with
    exchange := s.exchange.requested true t
    output := s.output ++ [(t, ch)]
    pc := Function.update s.pc t (.waiting path chars made s.exchange.issued) }

/-- `ConsoleOutput::PutChar`, called by `t`. -/
def devicePutChar (s : SynchConsoleOutput Thread) (t : Thread) (path : OutputPath)
    (chars : List Byte) (made : List Nat) (ch : Byte) :
    Except RequestFault (SynchConsoleOutput Thread) := do
  let _ ← s.exchange.request true t
  .ok (s.issued t path chars made ch)

/-- A pass of `waitFor->P()` left the exchange as `exchange`. -/
def waited (s : SynchConsoleOutput Thread) (t : Thread) (path : OutputPath) (chars : List Byte)
    (made : List Nat) (serial : Nat) (exchange : Exchange Thread) : SynchConsoleOutput Thread :=
  { s with
    exchange
    pc := if exchange.waiting t = none then
        Function.update s.pc t (.sending path chars (made ++ [serial]))
      else s.pc }

/-- `WLineBlock->V()`. -/
def unlined (s : SynchConsoleOutput Thread) (t : Thread) (chars : List Byte) (made : List Nat) :
    SynchConsoleOutput Thread :=
  { s with
    wLineBlock := s.wLineBlock.signal
    pc := Function.update s.pc t (.returning chars made) }

/-- `lock->Release()` or `WLineBlock->V()`. -/
def leave (s : SynchConsoleOutput Thread) (t : Thread) (chars : List Byte) (made : List Nat) :
    OutputPath → Option (SynchConsoleOutput Thread)
  | .lock => s.callLock t (.release t) (.returning chars made)
  | .line => some (s.unlined t chars made)

def returns (s : SynchConsoleOutput Thread) (t : Thread) (chars : List Byte) (made : List Nat) :
    SynchConsoleOutput Thread :=
  { s with
    pc := Function.update s.pc t .idle
    returned := s.returned ++ [⟨t, chars, made⟩] }

/-- The next statement, for a thread that is not inside a call on the lock. -/
def body (s : SynchConsoleOutput Thread) (t : Thread) :
    Option (Except RequestFault (SynchConsoleOutput Thread)) :=
  match s.pc t with
  | .idle => none
  | .entering .lock chars => (s.callLock t (.acquire t) (.sending .lock chars [])).map .ok
  | .entering .line chars => (s.wLineBlock.pass t).map fun sem => .ok (s.lined t chars sem)
  | .sending path chars made =>
    match chars[made.length]? with
    | some ch => some (s.devicePutChar t path chars made ch)
    | none => (s.leave t chars made path).map .ok
  | .waiting path chars made serial =>
    (s.exchange.wait t).map fun x => .ok (s.waited t path chars made serial x)
  | .returning chars made => some (.ok (s.returns t chars made))

/-- `none` when the event cannot happen, an error when the device's assertion fails. -/
def step : OutputEvent Thread → SynchConsoleOutput Thread →
    Option (Except RequestFault (SynchConsoleOutput Thread))
  | .call t call, s => if s.pc t = .idle then some (.ok (s.called t call)) else none
  | .step t, s =>
    if s.lock.pc t = .idle then s.body t
    else (s.lock.continues t).bind fun e => (s.callLock t e (s.pc t)).map .ok
  | .interrupt serial, s => (s.exchange.interrupt serial).map fun exchange => .ok { s with exchange }

end SynchConsoleOutput

/-- All interleavings of `PutChar` and `Write` calls with the display's interrupts. -/
def consoleOutputMachine (Thread : Type) [DecidableEq Thread] :
    Machine (SynchConsoleOutput Thread) (OutputEvent Thread) where
  init s := s = .initial
  next e s := (SynchConsoleOutput.step e s).bind Except.toOption

namespace OutputPc

/-- The way on which a thread is between the device's `PutChar` and the return of
its `waitFor->P()`. -/
def awaits : OutputPc → Option OutputPath
  | waiting path _ _ _ => some path
  | idle | entering _ _ | sending _ _ _ | returning _ _ => none

/-- Between `WLineBlock->P()` and `WLineBlock->V()`. -/
def onLine : OutputPc → Bool
  | sending .line _ _ | waiting .line _ _ _ => true
  | _ => false

/-- The characters of the call that have not been handed to the device. -/
def unsent : OutputPc → List Byte
  | idle | returning _ _ => []
  | entering _ chars => chars
  | sending _ chars made => chars.drop made.length
  | waiting _ chars made _ => chars.drop (made.length + 1)

/-- What a place says about the thread's place in the lock's code and about the
request it waits for. -/
def At : OutputPc → LockPc → Bool → Option Nat → Prop
  | idle, lock, inside, waits | entering _ _, lock, inside, waits
  | sending .line _ _, lock, inside, waits => lock = .idle ∧ inside = false ∧ waits = none
  | sending .lock _ _, lock, inside, waits => lock.Entering inside ∧ waits = none
  | waiting path _ _ serial, lock, inside, waits =>
    lock = .idle ∧ inside = decide (path = .lock) ∧ waits = some serial
  | returning _ _, lock, inside, waits =>
    (lock = .idle ∨ lock = .releasing) ∧ inside = false ∧ waits = none

end OutputPc

namespace SynchConsoleOutput

variable {s s' : SynchConsoleOutput Thread} {t : Thread}

/-- The way on which the next step of `t` calls the device's `PutChar`. -/
def issues (s : SynchConsoleOutput Thread) (t : Thread) : Option OutputPath :=
  match s.lock.pc t, s.pc t with
  | .idle, .sending path chars made => if made.length < chars.length then some path else none
  | _, _ => none

/-- The device is not called on one way while a thread on the other one is between
its own call and the return of its `waitFor->P()`. -/
def Separate : OutputEvent Thread → SynchConsoleOutput Thread → Prop
  | .step t, s => ∀ path ∈ s.issues t, ∀ u, ∀ other ∈ (s.pc u).awaits, other = path
  | _, _ => True

instance [Fintype Thread] :
    ∀ (e : OutputEvent Thread) (s : SynchConsoleOutput Thread), Decidable (Separate e s)
  | .step t, s => inferInstanceAs
      (Decidable (∀ path ∈ s.issues t, ∀ u, ∀ other ∈ (s.pc u).awaits, other = path))
  | .call _ _, _ | .interrupt _, _ => inferInstanceAs (Decidable True)

/-- The calls on the lock: from where, and where they lead. -/
inductive Turn (s : SynchConsoleOutput Thread) (t : Thread) : LockEvent Thread → OutputPc → Prop
  | acquire (chars : List Byte) (pc : s.pc t = .entering .lock chars) :
      Turn s t (.acquire t) (.sending .lock chars [])
  | inner (e : LockEvent Thread) (continues : s.lock.continues t = some e) : Turn s t e (s.pc t)
  | release (chars : List Byte) (made : List Nat) (pc : s.pc t = .sending .lock chars made)
      (done : chars[made.length]? = none) : Turn s t (.release t) (.returning chars made)

/-- Everything one event can do, with the thread that takes the step. -/
inductive Effect (s : SynchConsoleOutput Thread) :
    Option Thread → SynchConsoleOutput Thread → Prop
  | call (t : Thread) (call : OutputCall) (pc : s.pc t = .idle) :
      Effect s (some t) (s.called t call)
  | lock (t : Thread) (e : LockEvent Thread) (after : LockState Thread) (pc : OutputPc)
      (turn : s.Turn t e pc) (step : LockState.next e s.lock = some after) :
      Effect s (some t) (s.locked t pc after)
  | enterLine (t : Thread) (chars : List Byte) (pc : s.pc t = .entering .line chars)
      (available : s.wLineBlock.sem.value ≠ 0) :
      Effect s (some t) { s with
        wLineBlock := s.wLineBlock.consumed t
        pc := Function.update s.pc t (.sending .line chars []) }
  | sleepLine (t : Thread) : Effect s (some t) { s with wLineBlock := s.wLineBlock.slept t }
  | issue (t : Thread) (path : OutputPath) (chars : List Byte) (made : List Nat) (ch : Byte)
      (pc : s.pc t = .sending path chars made) (rest : s.lock.pc t = .idle)
      (next : chars[made.length]? = some ch) (free : s.exchange.busy = false) :
      Effect s (some t) (s.issued t path chars made ch)
  | wait (t : Thread) (path : OutputPath) (chars : List Byte) (made : List Nat) (serial : Nat)
      (exchange : Exchange Thread) (pc : s.pc t = .waiting path chars made serial)
      (wait : s.exchange.wait t = some exchange) :
      Effect s (some t) (s.waited t path chars made serial exchange)
  | leaveLine (t : Thread) (chars : List Byte) (made : List Nat)
      (pc : s.pc t = .sending .line chars made) (done : chars[made.length]? = none) :
      Effect s (some t) (s.unlined t chars made)
  | returns (t : Thread) (chars : List Byte) (made : List Nat)
      (pc : s.pc t = .returning chars made) (rest : s.lock.pc t = .idle) :
      Effect s (some t) (s.returns t chars made)
  | interrupt (serial : Nat) (pending : serial ∈ s.exchange.pending) :
      Effect s none { s with exchange := s.exchange.interrupted serial }

omit [DecidableEq Thread] in
theorem Turn.thread {e : LockEvent Thread} {pc : OutputPc} (turn : s.Turn t e pc) :
    e.thread = t := by
  cases turn with
  | acquire | release => rfl
  | inner e continues => exact LockState.continues_thread continues

theorem callLock_effect {e : LockEvent Thread} {pc : OutputPc} (turn : s.Turn t e pc)
    (h : s.callLock t e pc = some s') : s.Effect (some t) s' := by
  obtain ⟨after, step, rfl⟩ := Option.map_eq_some_iff.mp h
  exact .lock t e after pc turn step

theorem body_effect (rest : s.lock.pc t = .idle) (h : s.body t = some (.ok s')) :
    s.Effect (some t) s' := by
  unfold body at h
  split at h
  · cases h
  next chars pc =>
    obtain ⟨after, step, h⟩ := Option.map_eq_some_iff.mp h
    cases h
    exact callLock_effect (.acquire chars pc) step
  next chars pc =>
    obtain ⟨sem, pass, h⟩ := Option.map_eq_some_iff.mp h
    cases h
    rcases SemState.pass_cases pass with ⟨available, rfl⟩ | ⟨_, rfl⟩
    · simpa [lined, SemState.consumed] using Effect.enterLine t chars pc available
    · simpa [lined, SemState.slept] using Effect.sleepLine (s := s) t
  next path chars made pc =>
    split at h
    next ch next_ =>
      obtain ⟨_, request, h⟩ := Exec.bind_eq_ok.mp (Option.some.inj h)
      cases h
      exact .issue t path chars made ch pc rest next_ (Exchange.request_eq_ok.mp request).1
    next done =>
      obtain ⟨after, leave, h⟩ := Option.map_eq_some_iff.mp h
      cases h
      cases path with
      | lock => exact callLock_effect (.release chars made pc done) leave
      | line =>
        cases leave
        exact .leaveLine t chars made pc done
  next path chars made serial pc =>
    obtain ⟨exchange, wait, h⟩ := Option.map_eq_some_iff.mp h
    cases h
    exact .wait t path chars made serial exchange pc wait
  next chars made pc =>
    cases h
    exact .returns t chars made pc rest

theorem step_effect {e : OutputEvent Thread} (h : step e s = some (.ok s')) :
    s.Effect e.thread s' := by
  cases e with
  | call t call =>
    obtain ⟨pc, h⟩ := Option.ite_none_right_eq_some.mp h
    cases h
    exact .call t call pc
  | step t =>
    simp only [step] at h
    split at h
    next rest => exact body_effect rest h
    · obtain ⟨le, continues, h⟩ := Option.bind_eq_some_iff.mp h
      obtain ⟨after, step, h⟩ := Option.map_eq_some_iff.mp h
      cases h
      exact callLock_effect (.inner le continues) step
  | interrupt serial =>
    obtain ⟨exchange, fires, h⟩ := Option.map_eq_some_iff.mp h
    obtain ⟨pending, rfl⟩ := Exchange.interrupt_eq_some.mp fires
    cases h
    exact .interrupt serial pending

theorem next_effect {e : OutputEvent Thread}
    (h : (consoleOutputMachine Thread).next e s = some s') : s.Effect e.thread s' :=
  step_effect (Exec.bind_toOption_eq_some.mp h)

/-- What the step of `t` asks of the other threads. -/
def Apart (s : SynchConsoleOutput Thread) (t : Thread) : Prop :=
  ∀ path ∈ s.issues t, ∀ u, ∀ other ∈ (s.pc u).awaits, other = path

theorem Separate.apart {e : OutputEvent Thread} (meets : Separate e s)
    (h : step e s = some (.ok s')) (own : e.thread = some t) : s.Apart t := by
  cases e with
  | call u call =>
    cases own
    obtain ⟨pc, _⟩ := Option.ite_none_right_eq_some.mp h
    intro path issues
    unfold SynchConsoleOutput.issues at issues
    rw [pc] at issues
    split at issues
    next heq => cases heq
    · cases issues
  | step u =>
    cases own
    exact meets
  | interrupt serial => cases own

/-- What a step of one thread leaves as it is for another. -/
theorem Effect.others {who : Option Thread} (h : s.Effect who s') {u : Thread}
    (hu : who ≠ some u) :
    s'.pc u = s.pc u ∧ s'.lock.pc u = s.lock.pc u ∧ s'.lock.inside u = s.lock.inside u ∧
    s'.exchange.waiting u = s.exchange.waiting u ∧ s'.asked u = s.asked u ∧
    s'.output.filter (·.1 = u) = s.output.filter (·.1 = u) := by
  cases h with
  | lock t e after pc turn step =>
    have hut : u ≠ t := fun h => hu (congrArg some h.symm)
    have others := (LockState.next_effect step).others (u := u) (by rw [turn.thread]; exact hut)
    simp [locked, Function.update_of_ne hut, others]
  | wait t path chars made serial exchange pc wait =>
    have hut : u ≠ t := fun h => hu (congrArg some h.symm)
    rcases Exchange.wait_cases wait with ⟨_, rfl⟩ | ⟨_, rfl⟩
    · simp [waited, Exchange.passed, Function.update_of_ne hut]
    · refine ⟨?_, rfl, rfl, rfl, rfl, rfl⟩
      simp only [waited]
      split
      · exact Function.update_of_ne hut _ _
      · rfl
  | issue t path chars made ch _ _ _ _ =>
    have hut : u ≠ t := fun h => hu (congrArg some h.symm)
    simp [issued, Exchange.requested, Function.update_of_ne hut, Ne.symm hut]
  | call t | enterLine t | leaveLine t | returns t =>
    have hut : u ≠ t := fun h => hu (congrArg some h.symm)
    simp [called, unlined, SynchConsoleOutput.returns, Function.update_of_ne hut]
  | sleepLine t => exact ⟨rfl, rfl, rfl, rfl, rfl, rfl⟩
  | interrupt serial pending => exact ⟨rfl, rfl, rfl, rfl, rfl, rfl⟩

/-- The device's log and the handled interrupts only grow. -/
theorem Effect.grows {who : Option Thread} (h : s.Effect who s') :
    s.output <+: s'.output ∧ s.exchange.fired ⊆ s'.exchange.fired := by
  cases h with
  | wait t path chars made serial exchange pc wait =>
    rcases Exchange.wait_cases wait with ⟨_, rfl⟩ | ⟨_, rfl⟩ <;>
      exact ⟨List.prefix_refl _, List.Subset.refl _⟩
  | issue t path chars made ch =>
    exact ⟨List.prefix_append _ _, List.Subset.refl _⟩
  | interrupt serial pending =>
    exact ⟨List.prefix_refl _, List.subset_append_left _ _⟩
  | call | lock | enterLine | sleepLine | leaveLine | returns =>
    exact ⟨List.prefix_refl _, List.Subset.refl _⟩

end SynchConsoleOutput

/-- The lock is run as a lock. -/
def consoleOutputLock (Thread : Type) [DecidableEq Thread] :
    Machine.Projection (consoleOutputMachine Thread) (lockMachine Thread) where
  abs := SynchConsoleOutput.lock
  init := by
    intro s h
    rw [h]
    rfl
  step := by
    intro e s s' h
    have effect := SynchConsoleOutput.next_effect h
    generalize e.thread = who at effect
    cases effect with
    | lock t e after pc _ step => exact .inr ⟨e, step⟩
    | call | enterLine | sleepLine | issue | wait | leaveLine | returns | interrupt =>
      exact .inl rfl

/-- The requests `made` are those of the first characters of a call of `t`, in
order, and their interrupts have come. -/
structure Recorded (output : List (Thread × Byte)) (fired : List Nat) (t : Thread)
    (chars : List Byte) (made : List Nat) : Prop where
  written : made.map (output[·]?) = (chars.take made.length).map fun ch => some (t, ch)
  handled : ∀ serial ∈ made, serial ∈ fired

namespace Recorded

variable {output output' : List (Thread × Byte)} {fired fired' : List Nat} {t : Thread}
  {chars : List Byte} {made : List Nat}

omit [DecidableEq Thread] in
theorem nil : Recorded output fired t chars [] := ⟨rfl, by simp⟩

omit [DecidableEq Thread] in
theorem mono (h : Recorded output fired t chars made) (longer : output <+: output')
    (more : fired ⊆ fired') : Recorded output' fired' t chars made := by
  refine ⟨?_, fun serial hs => more (h.handled serial hs)⟩
  rw [← h.written]
  refine List.map_congr_left fun serial hs => ?_
  -- A position that holds a character keeps it when the log grows.
  have some_ : output[serial]? ∈ made.map (output[·]?) := List.mem_map_of_mem hs
  rw [h.written] at some_
  obtain ⟨ch, _, at_serial⟩ := List.mem_map.mp some_
  obtain ⟨rest, rfl⟩ := longer
  exact List.getElem?_append_left (List.getElem?_eq_some_iff.mp at_serial.symm).1

omit [DecidableEq Thread] in
theorem snoc (h : Recorded output fired t chars made) {serial : Nat} {ch : Byte}
    (next : chars[made.length]? = some ch) (written : output[serial]? = some (t, ch))
    (handled : serial ∈ fired) : Recorded output fired t chars (made ++ [serial]) := by
  constructor
  · simp only [List.map_append, List.map_cons, List.map_nil, List.length_append,
      List.length_singleton, List.take_add_one, next, Option.toList_some, h.written, written]
  · intro n hn
    rcases List.mem_append.mp hn with hn | hn
    · exact h.handled n hn
    · exact List.mem_singleton.mp hn ▸ handled

end Recorded

/-- How far a call has come, in terms of the device's log. -/
def OutputPc.Progress (output : List (Thread × Byte)) (fired : List Nat) (t : Thread) :
    OutputPc → Prop
  | idle | entering _ _ => True
  | sending _ chars made => Recorded output fired t chars made
  | waiting _ chars made serial => Recorded output fired t chars made ∧
    ∃ ch, chars[made.length]? = some ch ∧ output[serial]? = some (t, ch)
  | returning chars made => Recorded output fired t chars made ∧ chars.length ≤ made.length

structure OutputInvariant (s : SynchConsoleOutput Thread) : Prop where
  exchange : ExchangeInvariant s.exchange
  marked : s.exchange.busy = true ↔ s.exchange.pending ≠ []
  numbered : s.output.length = s.exchange.issued
  line : OneUnit s.wLineBlock.sem.value fun t => (s.pc t).onLine = true
  place : ∀ t, (s.pc t).At (s.lock.pc t) (s.lock.inside t) (s.exchange.waiting t)
  progress : ∀ t, (s.pc t).Progress s.output s.exchange.fired t
  order : ∀ t, (s.output.filter (·.1 = t)).map Prod.snd ++ (s.pc t).unsent = s.asked t
  returned : ∀ r ∈ s.returned,
    Recorded s.output s.exchange.fired r.thread r.chars r.made ∧ r.chars.length ≤ r.made.length

namespace OutputInvariant

variable {s s' : SynchConsoleOutput Thread} {t : Thread} {who : Option Thread}

theorem initial : OutputInvariant (.initial : SynchConsoleOutput Thread) where
  exchange := .initial
  marked := by simp [SynchConsoleOutput.initial, Exchange.initial]
  numbered := rfl
  line := .inl ⟨rfl, by simp [SynchConsoleOutput.initial, OutputPc.onLine]⟩
  place := by
    simp [SynchConsoleOutput.initial, LockState.initial, Exchange.initial, OutputPc.At]
  progress := by simp [SynchConsoleOutput.initial, OutputPc.Progress]
  order := by simp [SynchConsoleOutput.initial, OutputPc.unsent]
  returned := by simp [SynchConsoleOutput.initial]

/-- The condition and the two objects together leave the device to one thread. -/
theorem alone (inv : OutputInvariant s) (linv : LockInvariant s.lock) (apart : s.Apart t)
    {path : OutputPath} {chars : List Byte} {made : List Nat} {ch : Byte}
    (pc : s.pc t = .sending path chars made) (rest : s.lock.pc t = .idle)
    (next : chars[made.length]? = some ch) (u : Thread) : s.exchange.waiting u = none := by
  have issues : s.issues t = some path := by
    simp [SynchConsoleOutput.issues, pc, rest, (List.getElem?_eq_some_iff.mp next).1]
  by_contra waits
  have placeu := inv.place u
  have awaits : ∃ other cs m n, s.pc u = .waiting other cs m n := by
    generalize s.pc u = pcu at placeu
    cases pcu with
    | waiting other cs m n => exact ⟨other, cs, m, n, rfl⟩
    | idle | entering | returning => exact absurd placeu.2.2 waits
    | sending p cs m =>
      cases p with
      | lock => exact absurd placeu.2 waits
      | line => exact absurd placeu.2.2 waits
  obtain ⟨other, cs, m, n, pcu⟩ := awaits
  have hpath : other = path := apart path issues u other (by simp [pcu, OutputPc.awaits])
  subst hpath
  have same : u = t := by
    cases other with
    | lock =>
      have placet := inv.place t
      rw [pc, rest] at placet
      have insidet : s.lock.inside t = true := by simpa [LockPc.Entering] using placet.1
      have insideu : s.lock.inside u = true := by
        rw [pcu] at placeu
        simpa using placeu.2.1
      exact linv.exclusive u t (.inr (.inl insideu)) (.inr (.inl insidet))
    | line =>
      exact inv.line.only (by simp [pc, OutputPc.onLine]) (by simp [pcu, OutputPc.onLine])
  rw [same, pc] at pcu
  cases pcu

theorem exchange_next (inv : OutputInvariant s) (linv : LockInvariant s.lock)
    (apart : ∀ t, who = some t → s.Apart t) (h : s.Effect who s') :
    ExchangeInvariant s'.exchange ∧ (s'.exchange.busy = true ↔ s'.exchange.pending ≠ []) ∧
    s'.output.length = s'.exchange.issued := by
  cases h with
  | issue t path chars made ch pc rest next free =>
    refine ⟨inv.exchange.requested (inv.alone linv (apart t rfl) pc rest next) true, ?_, ?_⟩
    · simp [SynchConsoleOutput.issued, Exchange.requested]
    · simp [SynchConsoleOutput.issued, Exchange.requested, inv.numbered]
  | wait t path chars made serial exchange pc wait =>
    have waits : s.exchange.waiting t = some serial := by
      have place := inv.place t
      rw [pc] at place
      exact place.2.2
    rcases Exchange.wait_cases wait with ⟨available, rfl⟩ | ⟨_, rfl⟩
    · exact ⟨(inv.exchange.passed waits available).2, inv.marked, inv.numbered⟩
    · exact ⟨inv.exchange.slept, inv.marked, inv.numbered⟩
  | interrupt serial pending =>
    have after := inv.exchange.interrupted pending
    refine ⟨after, ?_, inv.numbered⟩
    have one := inv.exchange.bounds.1
    have gone : s.exchange.pending.erase serial = [] := by
      rw [List.eq_nil_iff_length_eq_zero, List.length_erase_of_mem pending]
      omega
    simp [Exchange.interrupted, gone]
  | call | lock | enterLine | sleepLine | leaveLine | returns =>
    exact ⟨inv.exchange, inv.marked, inv.numbered⟩

/-- A thread that moves neither on nor off the line. -/
theorem line_keeps (inv : OutputInvariant s) {pc : OutputPc} (keeps : pc.onLine = (s.pc t).onLine) :
    OneUnit s.wLineBlock.sem.value fun u => (Function.update s.pc t pc u).onLine = true := by
  refine inv.line.congr fun u => ?_
  by_cases hu : u = t
  · subst hu
    rw [Function.update_self, keeps]
  · rw [Function.update_of_ne hu]

theorem line_next (inv : OutputInvariant s) (h : s.Effect who s') :
    OneUnit s'.wLineBlock.sem.value fun t => (s'.pc t).onLine = true := by
  cases h with
  | call t call pc => exact inv.line_keeps (by simp [pc, OutputPc.onLine])
  | lock t e after pc turn step =>
    refine inv.line_keeps ?_
    cases turn with
    | acquire chars pc => simp [pc, OutputPc.onLine]
    | inner => rfl
    | release chars made pc => simp [pc, OutputPc.onLine]
  | enterLine t chars pc available =>
    refine inv.line.taken available (t := t) (fun u => ?_)
    by_cases hu : u = t
    · simp [hu, OutputPc.onLine]
    · simp [hu]
  | sleepLine t => exact inv.line
  | issue t path chars made ch pc =>
    exact inv.line_keeps (by cases path <;> simp [pc, OutputPc.onLine])
  | wait t path chars made serial exchange pc wait =>
    have keeps : (OutputPc.sending path chars (made ++ [serial])).onLine = (s.pc t).onLine := by
      cases path <;> simp [pc, OutputPc.onLine]
    simp only [SynchConsoleOutput.waited]
    split
    · exact inv.line_keeps keeps
    · exact inv.line
  | leaveLine t chars made pc =>
    have ht : (s.pc t).onLine = true := by simp [pc, OutputPc.onLine]
    have left : ∀ u, (Function.update s.pc t (.returning chars made) u).onLine = true →
        (s.pc u).onLine = true ∧ u ≠ t := by
      intro u hu
      have hne : u ≠ t := by
        rintro rfl
        simp [OutputPc.onLine] at hu
      exact ⟨by simpa [Function.update_of_ne hne] using hu, hne⟩
    obtain ⟨zero, none⟩ := inv.line.used ht left
    simp only [SynchConsoleOutput.unlined, SemState.signal_value]
    exact .signalled zero none
  | returns t chars made pc => exact inv.line_keeps (by simp [pc, OutputPc.onLine])
  | interrupt serial pending => exact inv.line

/-- The caller's own place after a step of the lock's code. -/
theorem locked_place (inv : OutputInvariant s) {e : LockEvent Thread} {after : LockState Thread}
    {pc : OutputPc} (turn : s.Turn t e pc) (step : LockState.next e s.lock = some after) :
    pc.At (after.pc t) (after.inside t) (s.exchange.waiting t) := by
  have place := inv.place t
  have own := (LockState.next_effect step).own turn.thread
  cases turn with
  | acquire chars pc =>
    rw [pc] at place
    simp only [reduceCtorEq, false_and, or_false, true_and] at own
    exact ⟨.inl ⟨own.2.1.symm, own.2.2.trans place.2.1⟩, place.2.2⟩
  | release chars made pc =>
    rw [pc] at place
    simp only [reduceCtorEq, false_and, or_false, false_or, true_and] at own
    exact ⟨.inr own.2.1, own.2.2, place.2⟩
  | inner e continues =>
    have busy := LockState.continues_busy continues
    generalize s.pc t = pc at place ⊢
    cases pc with
    | sending path chars made =>
      cases path with
      | lock => exact ⟨LockState.continues_entering continues step place.1, place.2⟩
      | line => exact absurd place.1 busy
    | returning chars made =>
      obtain ⟨lock, inside⟩ :=
        LockState.continues_leaving continues step ⟨place.1, place.2.1⟩
      exact ⟨lock, inside, place.2.2⟩
    | idle | entering | waiting => exact absurd place.1 busy

theorem place_next (inv : OutputInvariant s) (h : s.Effect who s') (u : Thread) :
    (s'.pc u).At (s'.lock.pc u) (s'.lock.inside u) (s'.exchange.waiting u) := by
  by_cases hu : who = some u
  · subst hu
    have place := inv.place u
    cases h with
    | call _ call pc =>
      rw [pc] at place
      simpa [SynchConsoleOutput.called, OutputPc.At] using place
    | lock _ e after pc turn step =>
      simpa [SynchConsoleOutput.locked] using inv.locked_place turn step
    | enterLine _ chars pc =>
      rw [pc] at place
      simpa [OutputPc.At] using place
    | sleepLine => exact place
    | issue _ path chars made ch pc rest =>
      rw [pc] at place
      cases path with
      | lock =>
        have inside : s.lock.inside u = true := by
          simpa [LockPc.Entering, rest] using place.1
        simp [SynchConsoleOutput.issued, OutputPc.At, Exchange.requested, rest, inside]
      | line =>
        simp [SynchConsoleOutput.issued, OutputPc.At, Exchange.requested, rest, place.2.1]
    | wait _ path chars made serial exchange pc wait =>
      rw [pc] at place
      obtain ⟨lock, inside, waits⟩ := place
      rcases Exchange.wait_cases wait with ⟨_, rfl⟩ | ⟨_, rfl⟩
      · cases path <;>
          simp_all [SynchConsoleOutput.waited, Exchange.passed, OutputPc.At, LockPc.Entering]
      · simp [SynchConsoleOutput.waited, Exchange.slept, OutputPc.At, pc, lock, inside, waits]
    | leaveLine _ chars made pc =>
      rw [pc] at place
      simpa [SynchConsoleOutput.unlined, OutputPc.At] using ⟨.inl place.1, place.2⟩
    | returns _ chars made pc rest =>
      rw [pc] at place
      simpa [SynchConsoleOutput.returns, OutputPc.At, rest] using place.2
  · obtain ⟨pc, lock, inside, waits, _, _⟩ := h.others hu
    rw [pc, lock, inside, waits]
    exact inv.place u

omit [DecidableEq Thread] in
theorem progress_mono {output output' : List (Thread × Byte)} {fired fired' : List Nat}
    {pc : OutputPc} (h : pc.Progress output fired t) (longer : output <+: output')
    (more : fired ⊆ fired') : pc.Progress output' fired' t := by
  cases pc with
  | idle | entering => trivial
  | sending path chars made => exact h.mono longer more
  | waiting path chars made serial =>
    obtain ⟨recorded, ch, next, written⟩ := h
    obtain ⟨rest, rfl⟩ := longer
    refine ⟨recorded.mono ⟨rest, rfl⟩ more, ch, next, ?_⟩
    rw [List.getElem?_append_left (List.getElem?_eq_some_iff.mp written).1, written]
  | returning chars made => exact ⟨h.1.mono longer more, h.2⟩

theorem progress_next (inv : OutputInvariant s) (h : s.Effect who s') (u : Thread) :
    (s'.pc u).Progress s'.output s'.exchange.fired u := by
  have progress := inv.progress u
  by_cases hu : who = some u
  · subst hu
    cases h with
    | call _ call pc => simp [SynchConsoleOutput.called, OutputPc.Progress]
    | lock _ e after pc turn step =>
      simp only [SynchConsoleOutput.locked, Function.update_self]
      cases turn with
      | acquire chars pc => exact .nil
      | inner => exact progress
      | release chars made pc done =>
        rw [pc] at progress
        exact ⟨progress, List.getElem?_eq_none_iff.mp done⟩
    | enterLine _ chars pc =>
      simp only [Function.update_self]
      exact .nil
    | sleepLine => exact progress
    | issue _ path chars made ch pc rest next free =>
      rw [pc] at progress
      simp only [SynchConsoleOutput.issued, Function.update_self]
      refine ⟨progress.mono (List.prefix_append _ _) (List.Subset.refl _), ch, next, ?_⟩
      simp [← inv.numbered]
    | wait _ path chars made serial exchange pc wait =>
      have waits : s.exchange.waiting u = some serial := by
        have place := inv.place u
        rw [pc] at place
        exact place.2.2
      rcases Exchange.wait_cases wait with ⟨available, rfl⟩ | ⟨_, rfl⟩
      · have fired := (inv.exchange.passed waits available).1
        rw [pc] at progress
        obtain ⟨recorded, ch, next, written⟩ := progress
        simp only [SynchConsoleOutput.waited, Exchange.passed, Function.update_self, if_true]
        exact recorded.snoc next written fired
      · simpa [SynchConsoleOutput.waited, Exchange.slept, waits] using progress
    | leaveLine _ chars made pc done =>
      rw [pc] at progress
      simp only [SynchConsoleOutput.unlined, Function.update_self]
      exact ⟨progress, List.getElem?_eq_none_iff.mp done⟩
    | returns _ chars made pc rest => simp [SynchConsoleOutput.returns, OutputPc.Progress]
  · obtain ⟨pc, _⟩ := h.others hu
    rw [pc]
    exact progress_mono progress h.grows.1 h.grows.2

/-- What was handed to the device and what was not make up what was asked for. -/
theorem order_next (inv : OutputInvariant s) (h : s.Effect who s') (u : Thread) :
    (s'.output.filter (·.1 = u)).map Prod.snd ++ (s'.pc u).unsent = s'.asked u := by
  have order := inv.order u
  by_cases hu : who = some u
  · subst hu
    cases h with
    | call _ call pc =>
      simpa [SynchConsoleOutput.called, OutputPc.unsent, pc] using order
    | lock _ e after pc turn step =>
      simp only [SynchConsoleOutput.locked, Function.update_self]
      cases turn with
      | acquire chars pc => simpa [pc, OutputPc.unsent] using order
      | inner => exact order
      | release chars made pc done =>
        have sent := List.drop_eq_nil_of_le (List.getElem?_eq_none_iff.mp done)
        simpa [pc, OutputPc.unsent, sent] using order
    | enterLine _ chars pc => simpa [pc, OutputPc.unsent] using order
    | sleepLine => exact order
    | issue _ path chars made ch pc rest next free =>
      have split : chars.drop made.length = ch :: chars.drop (made.length + 1) :=
        List.drop_eq_getElem?_toList_append.trans (by simp [next])
      rw [pc] at order
      simp only [OutputPc.unsent, split] at order
      simpa [SynchConsoleOutput.issued, OutputPc.unsent] using order
    | wait _ path chars made serial exchange pc wait =>
      rcases Exchange.wait_cases wait with ⟨_, rfl⟩ | ⟨_, rfl⟩
      · simpa [SynchConsoleOutput.waited, Exchange.passed, OutputPc.unsent, pc] using order
      · simp only [SynchConsoleOutput.waited]
        split
        · simpa [OutputPc.unsent, pc] using order
        · exact order
    | leaveLine _ chars made pc done =>
      have sent := List.drop_eq_nil_of_le (List.getElem?_eq_none_iff.mp done)
      simpa [SynchConsoleOutput.unlined, pc, OutputPc.unsent, sent] using order
    | returns _ chars made pc rest =>
      simpa [SynchConsoleOutput.returns, OutputPc.unsent, pc] using order
  · obtain ⟨pc, _, _, _, asked, output⟩ := h.others hu
    rw [pc, asked, output]
    exact order

theorem returned_next (inv : OutputInvariant s) (h : s.Effect who s') :
    ∀ r ∈ s'.returned, Recorded s'.output s'.exchange.fired r.thread r.chars r.made ∧
      r.chars.length ≤ r.made.length := by
  have older : ∀ r ∈ s.returned, Recorded s'.output s'.exchange.fired r.thread r.chars r.made ∧
      r.chars.length ≤ r.made.length := fun r hr =>
    (inv.returned r hr).imp_left fun recorded => recorded.mono h.grows.1 h.grows.2
  cases h with
  | returns t chars made pc rest =>
    intro r hr
    rcases List.mem_append.mp hr with hr | hr
    · exact older r hr
    · have progress := inv.progress t
      rw [pc] at progress
      rw [List.mem_singleton.mp hr]
      exact progress
  | call | lock | enterLine | sleepLine | issue | wait | leaveLine | interrupt => exact older

theorem next (inv : OutputInvariant s) (linv : LockInvariant s.lock)
    (apart : ∀ t, who = some t → s.Apart t) (h : s.Effect who s') : OutputInvariant s' := by
  obtain ⟨exchange, marked, numbered⟩ := inv.exchange_next linv apart h
  exact ⟨exchange, marked, numbered, inv.line_next h, inv.place_next h, inv.progress_next h,
    inv.order_next h, inv.returned_next h⟩

theorem of_reachable [Fintype Thread]
    (h : (consoleOutputMachine Thread).ReachableUnder SynchConsoleOutput.Separate s) :
    OutputInvariant s ∧ LockInvariant s.lock := by
  have linv : LockInvariant s.lock :=
    .of_reachable ((consoleOutputLock Thread).reachable (h.mono fun _ _ _ => trivial))
  refine ⟨?_, linv⟩
  clear linv
  induction h with
  | init h =>
    rw [h]
    exact initial
  | step before meets h ih =>
    have linv : LockInvariant _ :=
      .of_reachable ((consoleOutputLock Thread).reachable (before.mono fun _ _ _ => trivial))
    refine ih.next linv (fun t own => ?_) (SynchConsoleOutput.next_effect h)
    exact SynchConsoleOutput.Separate.apart meets (Exec.bind_toOption_eq_some.mp h) own

/-- Under the condition the assertion of the device holds. -/
theorem step_ne_busy (inv : OutputInvariant s) (linv : LockInvariant s.lock)
    (e : OutputEvent Thread) (meets : SynchConsoleOutput.Separate e s) :
    SynchConsoleOutput.step e s ≠ some (.error .busy) := by
  intro h
  cases e with
  | call t call =>
    obtain ⟨_, h⟩ := Option.ite_none_right_eq_some.mp h
    cases h
  | interrupt serial =>
    obtain ⟨_, _, h⟩ := Option.map_eq_some_iff.mp h
    cases h
  | step t =>
    simp only [SynchConsoleOutput.step] at h
    split at h
    next rest =>
      unfold SynchConsoleOutput.body at h
      split at h
      · cases h
      · obtain ⟨_, _, h⟩ := Option.map_eq_some_iff.mp h
        cases h
      · obtain ⟨_, _, h⟩ := Option.map_eq_some_iff.mp h
        cases h
      next path chars made pc =>
        split at h
        next ch next_ =>
          have free := (inv.exchange.atRest (inv.alone linv meets pc rest next_)).1
          simp [SynchConsoleOutput.devicePutChar, Exchange.request, free] at h
        · obtain ⟨_, _, h⟩ := Option.map_eq_some_iff.mp h
          cases h
      · obtain ⟨_, _, h⟩ := Option.map_eq_some_iff.mp h
        cases h
      · cases h
    · obtain ⟨_, _, h⟩ := Option.bind_eq_some_iff.mp h
      obtain ⟨_, _, h⟩ := Option.map_eq_some_iff.mp h
      cases h

omit [DecidableEq Thread] in
theorem issues_eq_some {path : OutputPath} (h : s.issues t = some path) :
    s.lock.pc t = .idle ∧ ∃ chars made ch, s.pc t = .sending path chars made ∧
      chars[made.length]? = some ch := by
  unfold SynchConsoleOutput.issues at h
  split at h
  next way chars made rest pc =>
    obtain ⟨more, h⟩ := Option.ite_none_right_eq_some.mp h
    cases h
    exact ⟨rest, chars, made, chars[made.length], pc, List.getElem?_eq_getElem more⟩
  · cases h

/-- A call of the device without the condition: the assertion fails, or the caller
finds a unit of `waitFor` before its own interrupt. -/
theorem not_separate (inv : OutputInvariant s) {e : OutputEvent Thread}
    (fails : ¬ SynchConsoleOutput.Separate e s) :
    SynchConsoleOutput.step e s = some (.error .busy) ∨
    ∃ s' t serial, SynchConsoleOutput.step e s = some (.ok s') ∧
      s'.exchange.waiting t = some serial ∧ serial ∈ s'.exchange.pending ∧
      s'.exchange.completion.sem.value ≠ 0 := by
  cases e with
  | call t call => exact absurd trivial fails
  | interrupt serial => exact absurd trivial fails
  | step t =>
    simp only [SynchConsoleOutput.Separate, Option.mem_def, not_forall] at fails
    obtain ⟨path, issues, u, other, awaits, _⟩ := fails
    obtain ⟨rest, chars, made, ch, pc, next⟩ := issues_eq_some issues
    have calls : SynchConsoleOutput.step (.step t) s =
        some (s.devicePutChar t path chars made ch) := by
      simp [SynchConsoleOutput.step, rest, SynchConsoleOutput.body, pc, next]
    rw [calls]
    have waits : ∃ serial, s.exchange.waiting u = some serial := by
      have place := inv.place u
      generalize s.pc u = pcu at place awaits
      cases pcu with
      | waiting _ _ _ serial => exact ⟨serial, place.2.2⟩
      | idle | entering | sending | returning => cases awaits
    obtain ⟨serial, waits⟩ := waits
    rcases inv.exchange.outstanding u serial waits with ⟨pending, _⟩ | ⟨free, _, value, _⟩
    · have busy : s.exchange.busy = true := inv.marked.mpr (by simp [pending])
      exact .inl (by simp [SynchConsoleOutput.devicePutChar, Exchange.request, busy])
    · refine .inr ⟨s.issued t path chars made ch, t, s.exchange.issued, ?_, ?_, ?_, ?_⟩
      · simp [SynchConsoleOutput.devicePutChar, Exchange.request, free]
      · simp [SynchConsoleOutput.issued, Exchange.requested]
      · simp [SynchConsoleOutput.issued, Exchange.requested]
      · simp [SynchConsoleOutput.issued, Exchange.requested, value]

end OutputInvariant

/-- Every interleaving of `PutChar` and `Write` calls with the display's interrupts
in which the device is never called on one way while a thread on the other one
waits for its character: the assertion in `ConsoleOutput::PutChar` holds at every
such step; what the device has written for a thread, followed by what its call
has still to write, is what its calls asked for, in that order; and a call that
returned has had the interrupts of its own characters. A step without the
condition fails the assertion, or lets its thread past `waitFor->P()` before its
own interrupt. -/
theorem consoleOutput_safe [Fintype Thread] (s : SynchConsoleOutput Thread)
    (h : (consoleOutputMachine Thread).ReachableUnder SynchConsoleOutput.Separate s) :
    (∀ e, SynchConsoleOutput.Separate e s → SynchConsoleOutput.step e s ≠ some (.error .busy)) ∧
    (∀ t, (s.output.filter (·.1 = t)).map Prod.snd ++ (s.pc t).unsent = s.asked t) ∧
    (∀ r ∈ s.returned, r.made.map (s.output[·]?) = r.chars.map (fun ch => some (r.thread, ch)) ∧
      ∀ serial ∈ r.made, serial ∈ s.exchange.fired) ∧
    (∀ e, ¬ SynchConsoleOutput.Separate e s →
      SynchConsoleOutput.step e s = some (.error .busy) ∨
      ∃ s' t serial, SynchConsoleOutput.step e s = some (.ok s') ∧
        s'.exchange.waiting t = some serial ∧ serial ∈ s'.exchange.pending ∧
        s'.exchange.completion.sem.value ≠ 0) := by
  obtain ⟨inv, linv⟩ := OutputInvariant.of_reachable h
  refine ⟨fun e meets => inv.step_ne_busy linv e meets, inv.order, fun r hr => ?_,
    fun e fails => inv.not_separate fails⟩
  obtain ⟨recorded, done⟩ := inv.returned r hr
  refine ⟨?_, recorded.handled⟩
  rw [recorded.written, List.take_of_length_le done]

end Machine

/-- `t` writes "ab" and `u` puts "c" after it. -/
def writeThenPut {Thread : Type} (t u : Thread) : List (OutputEvent Thread) :=
  [.call t (.write (fun i => if i = 0 then 0x61 else 0x62) 2), .step t, .step t, .interrupt 0,
    .step t, .step t, .step t, .interrupt 1, .step t, .step t, .step t,
    .call u (.putChar 0x63), .step u, .step u, .step u, .interrupt 2, .step u, .step u, .step u,
    .step u]

theorem consoleOutput_safe_write_then_put :
    ∃ s, (consoleOutputMachine (Fin 2)).runUnder SynchConsoleOutput.Separate (writeThenPut 0 1)
        .initial = some s ∧
      s.returned = [⟨0, [0x61, 0x62], [0, 1]⟩, ⟨1, [0x63], [2]⟩] ∧
      [0, 1].map (s.output[·]?) = [some (0, 0x61), some (0, 0x62)] ∧ 2 ∈ s.exchange.fired := by
  have replay : ((consoleOutputMachine (Fin 2)).runUnder SynchConsoleOutput.Separate
      (writeThenPut 0 1) .initial).map (fun s => s.returned) =
        some [⟨0, [0x61, 0x62], [0, 1]⟩, ⟨1, [0x63], [2]⟩] := by decide +kernel
  obtain ⟨s, hs, returned⟩ := Option.map_eq_some_iff.mp replay
  have reached := (Machine.ReachableUnder.init (M := consoleOutputMachine (Fin 2)) rfl).runUnder
    (writeThenPut 0 1) hs
  have safe := consoleOutput_safe s reached
  have first := safe.2.2.1 ⟨0, [0x61, 0x62], [0, 1]⟩ (by simp [returned])
  have second := safe.2.2.1 ⟨1, [0x63], [2]⟩ (by simp [returned])
  exact ⟨s, hs, returned, first.1, second.2 2 (by simp)⟩

/-- A `PutChar` and a `Write` at the same time: the second call of the device finds
it busy. -/
theorem consoleOutput_busy :
    ∃ s, (consoleOutputMachine (Fin 2)).run
        [.call 0 (.putChar 0x61), .step 0, .step 0, .step 0,
          .call 1 (.write (fun _ => 0x62) 1), .step 1] .initial = some s ∧
      s.output = [(0, 0x61)] ∧
      SynchConsoleOutput.step (.step 1) s = some (.error .busy) :=
  ⟨_, rfl, rfl, rfl⟩

end NachOS.Userprog
