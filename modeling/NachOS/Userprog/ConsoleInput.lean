import NachOS.Threads.SynchList
import NachOS.Lib.Memory
import NachOS.Lib.Handover

/-!
# Console input (machine/console.cc:64-111, userprog/synchconsole.cc:44-66)

The simulated keyboard keeps one character in `incoming`, a `char` that holds
`EOF` when there is none. Its interrupt polls the host: it schedules itself again
when nothing is there, and otherwise saves the character and signals `waitFor`.
`ConsoleInput::GetChar` takes the character and schedules the next poll, if there
was one. `SynchConsoleInput::GetChar` waits for `waitFor` under a lock and then
takes the character.

The host is the list of bytes it will ever deliver. Whether a poll finds the host
ready is left open; a ready host delivers the next byte or, when there are no
more, reports end of file. A `char` is signed: the byte 0xFF compares equal to
`EOF`. An error of the host's `read` is outside this model.

A character taken from the device is known by its position in the order of the
device's `GetChar` calls; a call returns after it has released the lock, so calls
may return in another order.
-/
namespace NachOS.Userprog
open NachOS.Lib NachOS.Threads

/-- The `char` that `EOF` becomes when it is stored in `incoming`. -/
def EOF : Byte := BitVec.ofInt 8 (-1)

/-- What the calls of the device's `GetChar` take from a host that delivers these bytes:
the byte 0xFF is the last one, and so is the `EOF` that is signalled at the end of file. -/
def delivered : List Byte → List Byte
  | [] => [EOF]
  | c :: rest => if c = EOF then [EOF] else c :: delivered rest

theorem delivered_cons (c : Byte) (rest : List Byte) :
    delivered (c :: rest) = c :: if c = EOF then [] else delivered rest := by
  rw [delivered]
  by_cases last : c = EOF
  · rw [if_pos last, if_pos last, last]
  · rw [if_neg last, if_neg last]

theorem delivered_append {xs : List Byte} (chars : EOF ∉ xs) (ys : List Byte) :
    delivered (xs ++ ys) = xs ++ delivered ys := by
  induction xs with
  | nil => rfl
  | cons c xs ih =>
    have front : c ≠ EOF := fun h => chars (h ▸ List.mem_cons_self)
    rw [List.cons_append, delivered, if_neg front, ih fun h => chars (List.mem_cons_of_mem _ h)]
    rfl

/-- Nothing behind the byte 0xFF is delivered. -/
theorem delivered_append_of_mem {xs : List Byte} (eof : EOF ∈ xs) (ys : List Byte) :
    delivered (xs ++ ys) <+: xs := by
  induction xs with
  | nil => exact absurd eof List.not_mem_nil
  | cons c xs ih =>
    rw [List.cons_append, delivered]
    split
    · rename_i last
      rw [last]
      exact ⟨xs, rfl⟩
    · rename_i front
      have later : EOF ∈ xs := (List.mem_cons.mp eof).resolve_left fun h => front h.symm
      exact List.cons_prefix_cons.mpr ⟨rfl, ih later⟩

/-- Where a thread stands inside `SynchConsoleInput::GetChar`. -/
inductive InputPc where
  | idle
  /-- In or after `lock->Acquire()`, before or in `waitFor->P()`. -/
  | waiting
  /-- `waitFor->P()` has returned, before `consoleInput->GetChar()`. -/
  | taking
  /-- Before `lock->Release()`, with the character and its position. -/
  | releasing (position : Nat) (ch : Byte)
  /-- In or after `lock->Release()`, before the return. -/
  | returning (position : Nat) (ch : Byte)
  deriving DecidableEq

structure SynchConsoleInput (Thread : Type) where
  lock : LockState Thread
  waitFor : SemState Thread
  incoming : Byte
  /-- How many `ConsoleReadInt` interrupts are scheduled. -/
  pending : Nat
  /-- What the host has not delivered yet. -/
  remaining : List Byte
  /-- The host has reported end of file. -/
  ended : Bool
  pc : Thread → InputPc
  /-- What the calls of the device's `GetChar` took, in order. -/
  taken : List Byte
  /-- What the calls of `SynchConsoleInput::GetChar` returned. -/
  returned : List (Nat × Byte)

inductive InputEvent (Thread : Type) where
  | getChar (t : Thread)
  | step (t : Thread)
  /-- The interrupt, with the answer of the poll. -/
  | interrupt (ready : Bool)
  deriving DecidableEq

section Machine

variable {Thread : Type} [DecidableEq Thread]

namespace SynchConsoleInput

def initial (input : List Byte) : SynchConsoleInput Thread where
  lock := .initial
  waitFor := .initial 0
  incoming := EOF
  pending := 1
  remaining := input
  ended := false
  pc := fun _ => .idle
  taken := []
  returned := []

def locked (s : SynchConsoleInput Thread) (t : Thread) (pc : InputPc) (lock : LockState Thread) :
    SynchConsoleInput Thread :=
  { s with lock, pc := Function.update s.pc t pc }

/-- A step of the lock's code, after which `t` is at `pc`. -/
def callLock (s : SynchConsoleInput Thread) (t : Thread) (e : LockEvent Thread) (pc : InputPc) :
    Option (SynchConsoleInput Thread) :=
  (LockState.next e s.lock).map (s.locked t pc)

/-- A pass of `waitFor->P()` left the semaphore as `waitFor`. -/
def waited (s : SynchConsoleInput Thread) (t : Thread) (waitFor : SemState Thread) :
    SynchConsoleInput Thread :=
  { s with
    waitFor
    pc := if waitFor.phase t = .running then Function.update s.pc t .taking else s.pc }

/-- `ConsoleInput::GetChar`, called by `t`. -/
def deviceGetChar (s : SynchConsoleInput Thread) (t : Thread) : SynchConsoleInput Thread :=
  { s with
    pending := if s.incoming.toInt ≠ -1 then s.pending + 1 else s.pending
    incoming := EOF
    pc := Function.update s.pc t (.releasing s.taken.length s.incoming)
    taken := s.taken ++ [s.incoming] }

def returns (s : SynchConsoleInput Thread) (t : Thread) (position : Nat) (ch : Byte) :
    SynchConsoleInput Thread :=
  { s with
    pc := Function.update s.pc t .idle
    returned := s.returned ++ [(position, ch)] }

/-- `SynchConsoleInput::CallBack`. -/
def callBack (s : SynchConsoleInput Thread) : SynchConsoleInput Thread :=
  { s with waitFor := s.waitFor.signal }

/-- `ConsoleInput::CallBack`, once its interrupt is off the pending ones. -/
def deviceCallBack (s : SynchConsoleInput Thread) (ready : Bool) : Exec (SynchConsoleInput Thread) := do
  check (s.incoming.toInt = -1) .assertion
  if ready then
    match s.remaining with
    | [] => .ok { s with ended := true }.callBack
    | c :: remaining => .ok { s with incoming := c, remaining }.callBack
  else .ok { s with pending := s.pending + 1 }

/-- The next statement of `GetChar`, for a thread that is not inside a call on the lock. -/
def body (s : SynchConsoleInput Thread) (t : Thread) : Option (SynchConsoleInput Thread) :=
  match s.pc t with
  | .idle => none
  | .waiting => (s.waitFor.pass t).map (s.waited t)
  | .taking => some (s.deviceGetChar t)
  | .releasing position ch => s.callLock t (.release t) (.returning position ch)
  | .returning position ch => some (s.returns t position ch)

/-- `none` when the event cannot happen, a fault when an assertion of the device fails. -/
def step : InputEvent Thread → SynchConsoleInput Thread →
    Option (Exec (SynchConsoleInput Thread))
  | .getChar t, s =>
    if s.pc t = .idle then (s.callLock t (.acquire t) .waiting).map .ok else none
  | .step t, s =>
    if s.lock.pc t = .idle then (s.body t).map .ok
    else (s.lock.continues t).bind fun e => (s.callLock t e (s.pc t)).map .ok
  | .interrupt ready, s =>
    if 0 < s.pending then some (deviceCallBack { s with pending := s.pending - 1 } ready) else none

end SynchConsoleInput

/-- All interleavings of `GetChar` calls with the keyboard's interrupts. -/
def consoleInputMachine (Thread : Type) [DecidableEq Thread] (input : List Byte) :
    Machine (SynchConsoleInput Thread) (InputEvent Thread) where
  init s := s = .initial input
  next e s := (SynchConsoleInput.step e s).bind Except.toOption

namespace SynchConsoleInput

variable {s s' : SynchConsoleInput Thread} {t : Thread}

/-- A poll is scheduled and no character is buffered. -/
def Polling (s : SynchConsoleInput Thread) : Prop := s.pending = 1 ∧ s.incoming.toInt = -1

/-- One unit of `waitFor` is unconsumed, or one thread has consumed it and not yet
called the device. -/
def OneUnit (s : SynchConsoleInput Thread) : Prop :=
  Threads.OneUnit s.waitFor.sem.value fun t => s.pc t = .taking

def NoUnit (s : SynchConsoleInput Thread) : Prop :=
  s.waitFor.sem.value = 0 ∧ ∀ t, s.pc t ≠ .taking

/-- A character is buffered and no poll is scheduled. -/
def Holding (s : SynchConsoleInput Thread) : Prop :=
  s.pending = 0 ∧ s.incoming.toInt ≠ -1 ∧ s.OneUnit

/-- The character that is buffered, if there is one. -/
def buffered (s : SynchConsoleInput Thread) : List Byte :=
  if s.incoming.toInt = -1 then [] else [s.incoming]

/-- The event does not read the byte 0xFF from the host. -/
def ReadsChar : InputEvent Thread → SynchConsoleInput Thread → Prop
  | .interrupt true, s => s.remaining.head? ≠ some EOF
  | _, _ => True

instance : ∀ (e : InputEvent Thread) (s : SynchConsoleInput Thread), Decidable (ReadsChar e s)
  | .interrupt true, s => inferInstanceAs (Decidable (s.remaining.head? ≠ some EOF))
  | .interrupt false, _ | .getChar _, _ | .step _, _ => inferInstanceAs (Decidable True)

theorem eof_iff (c : Byte) : c.toInt = -1 ↔ c = EOF := by
  revert c
  decide

def passed (s : SynchConsoleInput Thread) (t : Thread) : SynchConsoleInput Thread :=
  { s with
    waitFor := s.waitFor.consumed t
    pc := Function.update s.pc t .taking }

/-- The places between which a step of the lock's code leads. -/
inductive Turn (s : SynchConsoleInput Thread) (t : Thread) : InputPc → Prop
  | call (pc : s.pc t = .idle) : Turn s t .waiting
  | inner : Turn s t (s.pc t)
  | release (position : Nat) (ch : Byte) (pc : s.pc t = .releasing position ch) :
      Turn s t (.returning position ch)

/-- Everything one event can do. -/
inductive Effect (s : SynchConsoleInput Thread) :
    InputEvent Thread → SynchConsoleInput Thread → Prop
  | lock {e : InputEvent Thread} (t : Thread) (lock : LockState Thread) (pc : InputPc)
      (turn : s.Turn t pc) : Effect s e (s.locked t pc lock)
  | pass {e : InputEvent Thread} (t : Thread) (pc : s.pc t = .waiting)
      (available : s.waitFor.sem.value ≠ 0) : Effect s e (s.passed t)
  | sleep {e : InputEvent Thread} (t : Thread) :
      Effect s e { s with waitFor := s.waitFor.slept t }
  | take {e : InputEvent Thread} (t : Thread) (pc : s.pc t = .taking) :
      Effect s e (s.deviceGetChar t)
  | returns {e : InputEvent Thread} (t : Thread) (position : Nat) (ch : Byte)
      (pc : s.pc t = .returning position ch) : Effect s e (s.returns t position ch)
  | poll {e : InputEvent Thread} : Effect s e s
  | read (c : Byte) (remaining : List Byte) (scheduled : 0 < s.pending)
      (front : s.remaining = c :: remaining) :
      Effect s (.interrupt true)
        { s with pending := s.pending - 1, incoming := c, remaining }.callBack
  | finish {e : InputEvent Thread} (scheduled : 0 < s.pending) (front : s.remaining = []) :
      Effect s e { s with pending := s.pending - 1, ended := true }.callBack

theorem callLock_effect {e : InputEvent Thread} {le : LockEvent Thread} {pc : InputPc}
    (turn : s.Turn t pc) (h : s.callLock t le pc = some s') : s.Effect e s' := by
  obtain ⟨lock, _, rfl⟩ := Option.map_eq_some_iff.mp h
  exact .lock t lock pc turn

theorem body_effect {e : InputEvent Thread} (h : s.body t = some s') : s.Effect e s' := by
  unfold body at h
  split at h
  · cases h
  next pc =>
    obtain ⟨waitFor, pass, rfl⟩ := Option.map_eq_some_iff.mp h
    rcases SemState.pass_cases pass with ⟨available, rfl⟩ | ⟨_, rfl⟩
    · have same : s.waited t (s.waitFor.consumed t) = s.passed t := by
        simp [waited, passed, SemState.consumed]
      exact same ▸ .pass t pc available
    · have same : s.waited t (s.waitFor.slept t) = { s with waitFor := s.waitFor.slept t } := by
        simp [waited, SemState.slept]
      exact same ▸ .sleep t
  next pc =>
    cases h
    exact .take t pc
  next position ch pc => exact callLock_effect (.release position ch pc) h
  next position ch pc =>
    cases h
    exact .returns t position ch pc

theorem deviceCallBack_effect {ready : Bool} (scheduled : 0 < s.pending)
    (h : deviceCallBack { s with pending := s.pending - 1 } ready = .ok s') :
    s.Effect (.interrupt ready) s' := by
  obtain ⟨_, _, h⟩ := Exec.bind_eq_ok.mp h
  cases ready with
  | false =>
    simp only [Bool.false_eq_true, if_false, Except.ok.injEq, Nat.sub_add_cancel scheduled] at h
    exact h ▸ .poll
  | true =>
    simp only [if_true] at h
    split at h
    next front =>
      cases h
      exact .finish scheduled front
    next c remaining front =>
      cases h
      exact .read c remaining scheduled front

theorem next_effect {input : List Byte} {e : InputEvent Thread}
    (h : (consoleInputMachine Thread input).next e s = some s') : s.Effect e s' := by
  have step := Exec.bind_toOption_eq_some.mp h
  cases e with
  | getChar t =>
    obtain ⟨pc, step⟩ := Option.ite_none_right_eq_some.mp step
    obtain ⟨after, lock, ok⟩ := Option.map_eq_some_iff.mp step
    cases ok
    exact callLock_effect (.call pc) lock
  | step t =>
    simp only [SynchConsoleInput.step] at step
    split at step
    · obtain ⟨after, body, ok⟩ := Option.map_eq_some_iff.mp step
      cases ok
      exact body_effect body
    · obtain ⟨le, _, step⟩ := Option.bind_eq_some_iff.mp step
      obtain ⟨after, lock, ok⟩ := Option.map_eq_some_iff.mp step
      cases ok
      exact callLock_effect .inner lock
  | interrupt ready =>
    obtain ⟨scheduled, step⟩ := Option.ite_none_right_eq_some.mp step
    exact deviceCallBack_effect scheduled (Option.some.inj step)

end SynchConsoleInput

/-- The semaphore, the sentinel and the scheduled interrupt stay in step. -/
inductive InputSituation (input : List Byte) (s : SynchConsoleInput Thread) : Prop
  | polling (open_ : s.ended = false) (pending : s.pending = 1) (incoming : s.incoming = EOF)
      (unit : s.NoUnit) (split : s.taken ++ s.remaining = input) : InputSituation input s
  | holding (open_ : s.ended = false) (pending : s.pending = 0) (incoming : s.incoming ≠ EOF)
      (unit : s.OneUnit) (split : s.taken ++ s.incoming :: s.remaining = input) :
      InputSituation input s
  | ended (closed : s.ended = true) (pending : s.pending = 0) (incoming : s.incoming = EOF)
      (unit : s.OneUnit) (whole : s.taken = input) : InputSituation input s
  | drained (closed : s.ended = true) (pending : s.pending = 0) (incoming : s.incoming = EOF)
      (unit : s.NoUnit) (whole : s.taken = input ++ [EOF]) : InputSituation input s

/-- The character a thread has taken and not yet returned. -/
def InputPc.held : InputPc → Option (Nat × Byte)
  | idle | waiting | taking => none
  | releasing position ch | returning position ch => some (position, ch)

/-- Each character that was taken has been returned by one call or is held by one
thread that will return it. -/
def SynchConsoleInput.Accounted (s : SynchConsoleInput Thread) : Prop :=
  Lib.Accounted s.taken (fun t => (s.pc t).held) s.returned

namespace SynchConsoleInput

variable {s s' : SynchConsoleInput Thread} {t : Thread} {pc : InputPc}

omit [DecidableEq Thread] in
/-- A step of the lock's code takes no character and gives none back. -/
theorem Turn.keeps (turn : s.Turn t pc) :
    pc.held = (s.pc t).held ∧ (pc = .taking ↔ s.pc t = .taking) := by
  cases turn with
  | call pc => simp [pc, InputPc.held]
  | inner => exact ⟨rfl, Iff.rfl⟩
  | release position ch pc => simp [pc, InputPc.held]

theorem Turn.taking_iff (turn : s.Turn t pc) (u : Thread) :
    Function.update s.pc t pc u = .taking ↔ s.pc u = .taking := by
  by_cases hu : u = t
  · subst hu
    rw [Function.update_self]
    exact turn.keeps.2
  · rw [Function.update_of_ne hu]

omit [DecidableEq Thread] in
theorem OneUnit.congr (h : s.OneUnit) (value : s'.waitFor.sem.value = s.waitFor.sem.value)
    (takers : ∀ u, s'.pc u = .taking ↔ s.pc u = .taking) : s'.OneUnit := by
  unfold OneUnit at h ⊢
  rw [value]
  exact Threads.OneUnit.congr h takers

omit [DecidableEq Thread] in
theorem NoUnit.congr (h : s.NoUnit) (value : s'.waitFor.sem.value = s.waitFor.sem.value)
    (takers : ∀ u, s'.pc u = .taking ↔ s.pc u = .taking) : s'.NoUnit := by
  unfold NoUnit at h ⊢
  simpa only [value, ne_eq, takers] using h

/-- The thread that passes `waitFor->P()` becomes the taker of the unit. -/
theorem OneUnit.passed (h : s.OneUnit) (available : s.waitFor.sem.value ≠ 0) :
    (s.passed t).OneUnit := by
  refine Threads.OneUnit.taken h available (t := t) (fun u => ?_)
  by_cases hu : u = t
  · simp [SynchConsoleInput.passed, hu]
  · simp [SynchConsoleInput.passed, hu]

/-- When the taker calls the device the unit is used up. -/
theorem OneUnit.taken (h : s.OneUnit) (pc : s.pc t = .taking) : (s.deviceGetChar t).NoUnit := by
  refine Threads.OneUnit.used h pc (fun u hu => ?_)
  have hne : u ≠ t := by
    rintro rfl
    simp [deviceGetChar] at hu
  exact ⟨by simpa [deviceGetChar, Function.update_of_ne hne] using hu, hne⟩

/-- The interrupt handler leaves one unit where there was none. -/
theorem NoUnit.signalled (h : s.NoUnit) (value : s'.waitFor = s.waitFor.signal)
    (pc : s'.pc = s.pc) : s'.OneUnit := by
  unfold OneUnit
  rw [value, SemState.signal_value, pc]
  exact .signalled h.1 h.2

end SynchConsoleInput

namespace InputSituation

variable {input : List Byte} {s s' : SynchConsoleInput Thread} {t : Thread}

omit [DecidableEq Thread] in
theorem initial : InputSituation input (.initial input : SynchConsoleInput Thread) :=
  .polling rfl rfl rfl ⟨rfl, fun _ => by simp [SynchConsoleInput.initial]⟩ rfl

omit [DecidableEq Thread] in
/-- Steps of the threads outside the device and the semaphore. -/
theorem congr (h : InputSituation input s) (ended : s'.ended = s.ended)
    (pending : s'.pending = s.pending) (incoming : s'.incoming = s.incoming)
    (value : s'.waitFor.sem.value = s.waitFor.sem.value)
    (takers : ∀ u, s'.pc u = .taking ↔ s.pc u = .taking) (taken : s'.taken = s.taken)
    (remaining : s'.remaining = s.remaining) : InputSituation input s' := by
  cases h with
  | polling o p i u w =>
    exact .polling (ended.trans o) (pending.trans p) (incoming.trans i) (u.congr value takers)
      (by rw [taken, remaining, w])
  | holding o p i u w =>
    exact .holding (ended.trans o) (pending.trans p) (incoming ▸ i) (u.congr value takers)
      (by rw [taken, incoming, remaining, w])
  | ended c p i u w =>
    exact .ended (ended.trans c) (pending.trans p) (incoming.trans i) (u.congr value takers)
      (taken.trans w)
  | drained c p i u w =>
    exact .drained (ended.trans c) (pending.trans p) (incoming.trans i) (u.congr value takers)
      (taken.trans w)

theorem passed (h : InputSituation input s) (available : s.waitFor.sem.value ≠ 0) :
    InputSituation input (s.passed t) := by
  cases h with
  | polling o p i u w => exact absurd u.1 available
  | holding o p i u w => exact .holding o p i (u.passed available) w
  | ended c p i u w => exact .ended c p i (u.passed available) w
  | drained c p i u w => exact absurd u.1 available

theorem taken (h : InputSituation input s) (pc : s.pc t = .taking) :
    InputSituation input (s.deviceGetChar t) := by
  cases h with
  | polling o p i u w => exact absurd pc (u.2 t)
  | holding o p i u w =>
    have full : s.incoming.toInt ≠ -1 := fun h => i ((SynchConsoleInput.eof_iff _).mp h)
    refine .polling o ?_ rfl (u.taken pc) ?_
    · simp [SynchConsoleInput.deviceGetChar, full, p]
    · simpa [SynchConsoleInput.deviceGetChar] using w
  | ended c p i u w =>
    have empty : s.incoming.toInt = -1 := (SynchConsoleInput.eof_iff _).mpr i
    refine .drained c ?_ rfl (u.taken pc) ?_
    · simp [SynchConsoleInput.deviceGetChar, empty, p]
    · simp [SynchConsoleInput.deviceGetChar, i, w]
  | drained c p i u w => exact absurd pc (u.2 t)

/-- A byte other than 0xFF goes from the host to the buffer. -/
theorem read (h : InputSituation input s) {c : Byte} {remaining : List Byte}
    (scheduled : 0 < s.pending) (front : s.remaining = c :: remaining) (char : c ≠ EOF) :
    InputSituation input
      { s with pending := s.pending - 1, incoming := c, remaining }.callBack := by
  cases h with
  | polling o p i u w =>
    refine .holding o ?_ char (u.signalled rfl rfl) ?_
    · simp [SynchConsoleInput.callBack, p]
    · simpa [SynchConsoleInput.callBack, front] using w
  | holding o p _ _ _ => omega
  | ended c p _ _ _ => omega
  | drained c p _ _ _ => omega

theorem finish (h : InputSituation input s) (scheduled : 0 < s.pending)
    (front : s.remaining = []) :
    InputSituation input { s with pending := s.pending - 1, ended := true }.callBack := by
  cases h with
  | polling o p i u w =>
    refine .ended rfl ?_ i (u.signalled rfl rfl) ?_
    · simp [SynchConsoleInput.callBack, p]
    · simpa [SynchConsoleInput.callBack, front] using w
  | holding o p _ _ _ => omega
  | ended c p _ _ _ => omega
  | drained c p _ _ _ => omega

theorem next (h : InputSituation input s) {e : InputEvent Thread}
    (meets : SynchConsoleInput.ReadsChar e s) (effect : s.Effect e s') :
    InputSituation input s' := by
  cases effect with
  | lock t lock pc turn => exact h.congr rfl rfl rfl rfl turn.taking_iff rfl rfl
  | pass t pc available => exact h.passed available
  | sleep t => exact h.congr rfl rfl rfl rfl (fun _ => Iff.rfl) rfl rfl
  | take t pc => exact h.taken pc
  | returns t position ch pc =>
    refine h.congr rfl rfl rfl rfl (fun u => ?_) rfl rfl
    by_cases hu : u = t
    · subst hu
      simp [SynchConsoleInput.returns, pc]
    · simp [SynchConsoleInput.returns, Function.update_of_ne hu]
  | poll => exact h
  | read c remaining scheduled front =>
    have char : c ≠ EOF := by simpa [SynchConsoleInput.ReadsChar, front] using meets
    exact h.read scheduled front char
  | finish scheduled front => exact h.finish scheduled front

end InputSituation

namespace SynchConsoleInput

variable {s s' : SynchConsoleInput Thread} {t : Thread}

theorem Accounted.next (h : s.Accounted) {e : InputEvent Thread} (effect : s.Effect e s') :
    s'.Accounted := by
  cases effect with
  | lock t lock pc turn =>
    refine Lib.Accounted.congr h fun u => ?_
    by_cases hu : u = t
    · subst hu
      simpa [locked] using turn.keeps.1
    · simp [locked, Function.update_of_ne hu]
  | pass t pc available =>
    refine Lib.Accounted.congr h fun u => ?_
    by_cases hu : u = t
    · subst hu
      simp [passed, pc, InputPc.held]
    · simp [passed, Function.update_of_ne hu]
  | take t pc =>
    refine Lib.Accounted.take h (t := t) ?_ ?_ fun u hu => ?_
    · simp [pc, InputPc.held]
    · simp [deviceGetChar, InputPc.held]
    · simp [deviceGetChar, Function.update_of_ne hu]
  | returns t position ch pc =>
    refine Lib.Accounted.give h (t := t) ?_ ?_ fun u hu => ?_
    · simp [pc, InputPc.held]
    · simp [SynchConsoleInput.returns, InputPc.held]
    · simp [SynchConsoleInput.returns, Function.update_of_ne hu]
  | sleep | poll | read | finish => exact h

end SynchConsoleInput

namespace SynchConsoleInput

variable {input : List Byte} {s s' : SynchConsoleInput Thread}

theorem situation_of_reachable (h : (consoleInputMachine Thread input).ReachableUnder ReadsChar s) :
    InputSituation input s ∧ s.Accounted := by
  induction h with
  | init h =>
    rw [h]
    exact ⟨.initial, Lib.Accounted.initial fun _ => rfl⟩
  | step _ meets h ih =>
    have effect := next_effect h
    exact ⟨ih.1.next meets effect, ih.2.next effect⟩

/-- While the interrupt is scheduled, nothing is buffered. -/
theorem step_ne_error (h : InputSituation input s) (e : InputEvent Thread) (fault : Fault) :
    step e s ≠ some (.error fault) := by
  intro hstep
  cases e with
  | getChar t =>
    obtain ⟨_, hstep⟩ := Option.ite_none_right_eq_some.mp hstep
    obtain ⟨_, _, hstep⟩ := Option.map_eq_some_iff.mp hstep
    cases hstep
  | step t =>
    simp only [step] at hstep
    split at hstep
    · obtain ⟨_, _, hstep⟩ := Option.map_eq_some_iff.mp hstep
      cases hstep
    · obtain ⟨_, _, hstep⟩ := Option.bind_eq_some_iff.mp hstep
      obtain ⟨_, _, hstep⟩ := Option.map_eq_some_iff.mp hstep
      cases hstep
  | interrupt ready =>
    obtain ⟨scheduled, hstep⟩ := Option.ite_none_right_eq_some.mp hstep
    have empty : s.incoming.toInt = -1 := by
      cases h with
      | polling _ _ i _ _ => exact (eof_iff _).mpr i
      | holding _ p _ _ _ => omega
      | ended _ _ i _ _ => exact (eof_iff _).mpr i
      | drained _ _ i _ _ => exact (eof_iff _).mpr i
    simp only [deviceCallBack, check_true empty, Exec.ok_bind, Option.some.injEq] at hstep
    split at hstep
    · split at hstep <;> cases hstep
    · cases hstep

omit [DecidableEq Thread] in
theorem polling_iff (h : InputSituation input s) (open_ : s.ended = false) :
    s.Polling ↔ ¬ s.Holding := by
  cases h with
  | polling _ p i _ _ =>
    have polls : s.Polling := ⟨p, (eof_iff _).mpr i⟩
    exact ⟨fun _ holds => holds.2.1 polls.2, fun _ => polls⟩
  | holding _ p i u _ =>
    have holds : s.Holding := ⟨p, fun h => i ((eof_iff _).mp h), u⟩
    exact ⟨fun polls => absurd polls.2 holds.2.1, fun h => absurd holds h⟩
  | ended c _ _ _ _ => simp [c] at open_
  | drained c _ _ _ _ => simp [c] at open_

omit [DecidableEq Thread] in
theorem stream_split (h : InputSituation input s) (open_ : s.ended = false) :
    s.taken ++ s.buffered ++ s.remaining = input := by
  cases h with
  | polling _ _ i _ w =>
    simpa [buffered, (eof_iff _).mpr i] using w
  | holding _ _ i _ w =>
    have full : s.incoming.toInt ≠ -1 := fun h => i ((eof_iff _).mp h)
    simpa [buffered, full] using w
  | ended c _ _ _ _ => simp [c] at open_
  | drained c _ _ _ _ => simp [c] at open_

omit [DecidableEq Thread] in
theorem stream_whole (h : InputSituation input s) (closed : s.ended = true) :
    s.taken = input ∨ s.taken = input ++ [EOF] := by
  cases h with
  | polling o _ _ _ _ => simp [o] at closed
  | holding o _ _ _ _ => simp [o] at closed
  | ended _ _ _ _ w => exact .inl w
  | drained _ _ _ _ w => exact .inr w

omit [DecidableEq Thread] in
theorem not_readsChar {e : InputEvent Thread} (h : ¬ ReadsChar e s) :
    e = .interrupt true ∧ ∃ rest, s.remaining = EOF :: rest := by
  unfold ReadsChar at h
  split at h
  · refine ⟨rfl, ?_⟩
    cases hr : s.remaining with
    | nil => simp [hr] at h
    | cons c rest =>
      have hc : c = EOF := by simpa [hr] using h
      exact ⟨rest, by rw [hc]⟩
  · exact absurd trivial h

/-- The byte 0xFF is taken for an empty buffer: no poll is scheduled any more. -/
theorem read_eof (h : InputSituation input s) {e : InputEvent Thread} (fails : ¬ ReadsChar e s)
    (hn : (consoleInputMachine Thread input).next e s = some s') :
    s'.ended = false ∧ ¬ s'.Polling ∧ ¬ s'.Holding := by
  obtain ⟨rfl, rest, front⟩ := not_readsChar fails
  obtain ⟨scheduled, hstep⟩ := Option.ite_none_right_eq_some.mp
    (Exec.bind_toOption_eq_some.mp hn)
  obtain ⟨_, _, hread⟩ := Exec.bind_eq_ok.mp (Option.some.inj hstep)
  simp only [front, if_true, Except.ok.injEq] at hread
  subst hread
  cases h with
  | polling o p _ _ _ =>
    refine ⟨o, fun polls => ?_, fun holds => ?_⟩
    · have := polls.1
      simp [callBack, p] at this
    · exact holds.2.1 ((eof_iff _).mpr rfl)
  | holding _ p _ _ _ => omega
  | ended _ p _ _ _ => omega
  | drained _ p _ _ _ => omega

end SynchConsoleInput

/-- Every interleaving of `GetChar` calls with the keyboard's interrupts in which
no byte 0xFF is read: the assertions hold; until the host reports end of file
either a poll is scheduled and no character is buffered, or a character is
buffered with its unit of `waitFor`, never both; the characters taken, the
buffered one and what the host still has are the input; after the end of file at
most one `EOF` follows the input; and the calls return each character that was
taken once. The byte 0xFF ends this: the step that reads it leaves neither a poll
nor a buffered character. -/
theorem consoleInput_safe (input : List Byte) (s : SynchConsoleInput Thread)
    (h : (consoleInputMachine Thread input).ReachableUnder SynchConsoleInput.ReadsChar s) :
    (∀ e fault, SynchConsoleInput.step e s ≠ some (.error fault)) ∧
    (s.ended = false → (s.Polling ↔ ¬ s.Holding)) ∧
    (s.ended = false → s.taken ++ s.buffered ++ s.remaining = input) ∧
    (s.ended = true → s.taken = input ∨ s.taken = input ++ [EOF]) ∧
    (∀ k ch, (k, ch) ∈ s.returned → s.taken[k]? = some ch) ∧
    (s.returned.map Prod.fst).Nodup ∧
    (∀ k < s.taken.length, k ∈ s.returned.map Prod.fst ∨
      ∃ t ch, s.pc t = .releasing k ch ∨ s.pc t = .returning k ch) ∧
    (∀ e s', ¬ SynchConsoleInput.ReadsChar e s →
      (consoleInputMachine Thread input).next e s = some s' →
      s'.ended = false ∧ ¬ s'.Polling ∧ ¬ s'.Holding) := by
  obtain ⟨situation, accounted⟩ := SynchConsoleInput.situation_of_reachable h
  refine ⟨SynchConsoleInput.step_ne_error situation, SynchConsoleInput.polling_iff situation,
    SynchConsoleInput.stream_split situation, SynchConsoleInput.stream_whole situation,
    accounted.gave, accounted.once, ?_, ?_⟩
  · intro k hk
    refine (accounted.covered k hk).imp_right ?_
    intro ⟨t, ch, held⟩
    refine ⟨t, ch, ?_⟩
    generalize s.pc t = pc at held ⊢
    cases pc with
    | idle | waiting | taking => cases held
    | releasing position c =>
      cases held
      exact .inl rfl
    | returning position c =>
      cases held
      exact .inr rfl
  · intro e s' fails hn
    exact SynchConsoleInput.read_eof situation fails hn

/-- What was taken and what is still to come make up `delivered input`, in every run. -/
inductive Delivery (input : List Byte) (s : SynchConsoleInput Thread) : Prop
  | polling (pending : s.pending = 1) (incoming : s.incoming = EOF) (unit : s.NoUnit)
      (split : delivered input = s.taken ++ delivered s.remaining) : Delivery input s
  | holding (pending : s.pending = 0) (unit : s.OneUnit)
      (split : delivered input =
        s.taken ++ s.incoming :: (if s.incoming = EOF then [] else delivered s.remaining)) :
      Delivery input s
  | finished (pending : s.pending = 0) (unit : s.NoUnit) (whole : delivered input = s.taken) :
      Delivery input s

namespace Delivery

variable {input : List Byte} {s s' : SynchConsoleInput Thread} {t : Thread}

omit [DecidableEq Thread] in
theorem congr (h : Delivery input s) (pending : s'.pending = s.pending)
    (incoming : s'.incoming = s.incoming)
    (value : s'.waitFor.sem.value = s.waitFor.sem.value)
    (takers : ∀ u, s'.pc u = .taking ↔ s.pc u = .taking) (taken : s'.taken = s.taken)
    (remaining : s'.remaining = s.remaining) : Delivery input s' := by
  cases h with
  | polling p i u w =>
    exact .polling (pending.trans p) (incoming.trans i) (u.congr value takers)
      (by rw [taken, remaining, w])
  | holding p u w =>
    exact .holding (pending.trans p) (u.congr value takers)
      (by rw [taken, incoming, remaining, w])
  | finished p u w => exact .finished (pending.trans p) (u.congr value takers) (w.trans taken.symm)

theorem passed (h : Delivery input s) (available : s.waitFor.sem.value ≠ 0) :
    Delivery input (s.passed t) := by
  cases h with
  | polling p i u w => exact absurd u.1 available
  | holding p u w => exact .holding p (u.passed available) w
  | finished p u w => exact absurd u.1 available

theorem taken (h : Delivery input s) (pc : s.pc t = .taking) :
    Delivery input (s.deviceGetChar t) := by
  cases h with
  | polling p i u w => exact absurd pc (u.2 t)
  | holding p u w =>
    by_cases last : s.incoming = EOF
    · have empty : s.incoming.toInt = -1 := (SynchConsoleInput.eof_iff _).mpr last
      refine .finished ?_ (u.taken pc) ?_
      · simp [SynchConsoleInput.deviceGetChar, empty, p]
      · simpa [SynchConsoleInput.deviceGetChar, last] using w
    · have full : s.incoming.toInt ≠ -1 := fun h => last ((SynchConsoleInput.eof_iff _).mp h)
      refine .polling ?_ rfl (u.taken pc) ?_
      · simp [SynchConsoleInput.deviceGetChar, full, p]
      · simpa [SynchConsoleInput.deviceGetChar, last] using w
  | finished p u w => exact absurd pc (u.2 t)

theorem read (h : Delivery input s) {c : Byte} {remaining : List Byte}
    (scheduled : 0 < s.pending) (front : s.remaining = c :: remaining) :
    Delivery input { s with pending := s.pending - 1, incoming := c, remaining }.callBack := by
  cases h with
  | polling p i u w =>
    refine .holding ?_ (u.signalled rfl rfl) ?_
    · simp [SynchConsoleInput.callBack, p]
    · show delivered input = s.taken ++ c :: (if c = EOF then [] else delivered remaining)
      rw [w, front, delivered_cons]
  | holding p _ _ => omega
  | finished p _ _ => omega

theorem finish (h : Delivery input s) (scheduled : 0 < s.pending) (front : s.remaining = []) :
    Delivery input { s with pending := s.pending - 1, ended := true }.callBack := by
  cases h with
  | polling p i u w =>
    refine .holding ?_ (u.signalled rfl rfl) ?_
    · simp [SynchConsoleInput.callBack, p]
    · simpa [SynchConsoleInput.callBack, front, delivered, i] using w
  | holding p _ _ => omega
  | finished p _ _ => omega

theorem next (h : Delivery input s) {e : InputEvent Thread} (effect : s.Effect e s') :
    Delivery input s' := by
  cases effect with
  | lock t lock pc turn => exact h.congr rfl rfl rfl turn.taking_iff rfl rfl
  | pass t pc available => exact h.passed available
  | sleep t => exact h.congr rfl rfl rfl (fun _ => Iff.rfl) rfl rfl
  | take t pc => exact h.taken pc
  | returns t position ch pc =>
    refine h.congr rfl rfl rfl (fun u => ?_) rfl rfl
    by_cases hu : u = t
    · subst hu
      simp [SynchConsoleInput.returns, pc]
    · simp [SynchConsoleInput.returns, Function.update_of_ne hu]
  | poll => exact h
  | read c remaining scheduled front => exact h.read scheduled front
  | finish scheduled front => exact h.finish scheduled front

end Delivery

/-- Whatever the interleaving, and whatever bytes the host has: the characters taken from
the device are a beginning of `delivered input`, and when neither an interrupt is
scheduled nor a unit of `waitFor` is left they are all of it. -/
theorem taken_delivered (input : List Byte) (s : SynchConsoleInput Thread)
    (h : (consoleInputMachine Thread input).Reachable s) :
    s.taken <+: delivered input ∧
      (s.pending = 0 → s.NoUnit → s.taken = delivered input) := by
  have situation : Delivery input s := by
    apply Machine.Reachable.invariant _ _ h
    · intro s init
      rw [init]
      exact .polling rfl rfl ⟨rfl, fun _ => by simp [SynchConsoleInput.initial]⟩ rfl
    · intro s s' e before step
      exact before.next (SynchConsoleInput.next_effect step)
  cases situation with
  | polling p i u w => exact ⟨⟨_, w.symm⟩, fun none => by omega⟩
  | holding p u w =>
    refine ⟨⟨_, w.symm⟩, fun _ none => ?_⟩
    rcases u with ⟨one, _⟩ | ⟨_, t, taking, _⟩
    · have := none.1
      omega
    · exact absurd taking (none.2 t)
  | finished p u w => exact ⟨⟨[], by rw [List.append_nil, w]⟩, fun _ _ => w.symm⟩

end Machine

/-- Two threads read the input "ab"; the second call is made before the first
character has arrived. -/
def readAB {Thread : Type} (t u : Thread) : List (InputEvent Thread) :=
  [.getChar t, .step t, .step t, .getChar u, .interrupt false, .interrupt true,
    .step t, .step t, .step t, .step t, .step t,
    .step u, .step u, .interrupt true, .step u, .step u, .step u, .step u, .step u]

theorem consoleInput_safe_two_readers :
    ∃ s, (consoleInputMachine (Fin 2) [0x61, 0x62]).runUnder SynchConsoleInput.ReadsChar
        (readAB 0 1) (.initial [0x61, 0x62]) = some s ∧
      s.returned = [(0, 0x61), (1, 0x62)] ∧ (s.Polling ↔ ¬ s.Holding) ∧
      s.taken ++ s.buffered ++ s.remaining = [0x61, 0x62] := by
  have replay : ((consoleInputMachine (Fin 2) [0x61, 0x62]).runUnder SynchConsoleInput.ReadsChar
      (readAB 0 1) (.initial [0x61, 0x62])).map (fun s => (s.returned, s.ended)) =
        some ([(0, 0x61), (1, 0x62)], false) := by decide +kernel
  obtain ⟨s, hs, view⟩ := Option.map_eq_some_iff.mp replay
  obtain ⟨returned, open_⟩ := Prod.mk.inj view
  have reached := (Machine.ReachableUnder.init
    (M := consoleInputMachine (Fin 2) [0x61, 0x62]) rfl).runUnder (readAB 0 1) hs
  have safe := consoleInput_safe [0x61, 0x62] s reached
  exact ⟨s, hs, returned, safe.2.1 open_, safe.2.2.1 open_⟩

/-- The input is 0xFF and then "a". The call of `GetChar` returns 0xFF, no
interrupt is scheduled any more, and "a" is never read. -/
theorem consoleInput_stops_at_0xFF :
    ∃ s, (consoleInputMachine (Fin 1) [0xFF, 0x61]).run
        [.interrupt true, .getChar 0, .step 0, .step 0, .step 0, .step 0, .step 0, .step 0]
        (.initial [0xFF, 0x61]) = some s ∧
      s.ended = false ∧ s.returned = [(0, 0xFF)] ∧ s.remaining = [0x61] ∧
      s.pending = 0 ∧ ¬ s.Polling ∧ ¬ s.Holding ∧ ¬ (s.Polling ↔ ¬ s.Holding) := by
  refine ⟨_, rfl, rfl, rfl, rfl, rfl, ?_, ?_, ?_⟩
  · intro polls
    exact absurd polls.1 (by decide)
  · intro holds
    exact holds.2.1 (by decide)
  · intro exact_
    refine absurd (exact_.mpr fun holds => holds.2.1 (by decide)).1 (by decide)

end NachOS.Userprog
