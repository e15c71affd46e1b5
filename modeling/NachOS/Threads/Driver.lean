import NachOS.Threads.SynchList
import NachOS.Lib.Memory

/-!
# Waiting for a device

Four functions of the kernel have one shape (`SynchDisk::ReadSector` and
`WriteSector`, `SynchConsoleOutput::PutChar`, `PostOfficeOutput::Send`):

    lock->Acquire(); device->Request(..); semaphore->P(); lock->Release();

The request asserts that the device is free, transfers the data at once, marks
the device busy and schedules an interrupt; the interrupt handler clears the
mark and performs `semaphore->V()`.

`Exchange` is the device's flag, the interrupts still to come and the completion
semaphore, with requests numbered in the order in which they are made. `Driver`
is the whole shape around it, with the rest of the request as a parameter. The
atomic steps are those of the lock, each pass of `P`, the request itself (it
never enables interrupts) and a whole interrupt handler.
-/
namespace NachOS.Threads
open NachOS.Lib NachOS.Library

/-- Why a request stops the program. -/
inductive RequestFault where
  /-- The assertion that no request is in progress. -/
  | busy
  /-- An assertion on the arguments of the request. -/
  | refused
  deriving DecidableEq

structure Exchange (Thread : Type) where
  /-- The semaphore the interrupt handler signals. -/
  completion : SemState Thread
  busy : Bool
  /-- The requests whose interrupt is scheduled. -/
  pending : List Nat
  issued : Nat
  /-- The requests whose interrupt has been handled. -/
  fired : List Nat
  /-- The request that a thread has made and whose `semaphore->P()` has not returned. -/
  waiting : Thread → Option Nat

section Exchange

variable {Thread : Type} [DecidableEq Thread]

namespace Exchange

def initial : Exchange Thread where
  completion := .initial 0
  busy := false
  pending := []
  issued := 0
  fired := []
  waiting := fun _ => none

/-- The state once `t` made a request; `marks` is whether the device sets its flag. -/
def requested (x : Exchange Thread) (marks : Bool) (t : Thread) : Exchange Thread :=
  { x with
    busy := marks
    pending := x.pending ++ [x.issued]
    issued := x.issued + 1
    waiting := Function.update x.waiting t (some x.issued) }

/-- `ASSERT(!busy)`, then the request. -/
def request (x : Exchange Thread) (marks : Bool) (t : Thread) :
    Except RequestFault (Exchange Thread) :=
  if x.busy then .error .busy else .ok (x.requested marks t)

/-- The state once a test of the completion semaphore left it as `sem`. -/
def afterTest (x : Exchange Thread) (t : Thread) (sem : SemState Thread) : Exchange Thread :=
  { x with
    completion := sem
    waiting := if sem.phase t = .running then Function.update x.waiting t none else x.waiting }

/-- A pass of `semaphore->P()`. -/
def wait (x : Exchange Thread) (t : Thread) : Option (Exchange Thread) :=
  (x.completion.pass t).map (x.afterTest t)

/-- The handler of the interrupt of request `n`: clear the flag, `semaphore->V()`. -/
def interrupted (x : Exchange Thread) (n : Nat) : Exchange Thread :=
  { x with
    completion := x.completion.signal
    busy := false
    pending := x.pending.erase n
    fired := x.fired ++ [n] }

def interrupt (x : Exchange Thread) (n : Nat) : Option (Exchange Thread) :=
  if n ∈ x.pending then some (x.interrupted n) else none

/-- `P` returned. -/
def passed (x : Exchange Thread) (t : Thread) : Exchange Thread :=
  { x with
    completion := x.completion.consumed t
    waiting := Function.update x.waiting t none }

/-- `P` put the thread to sleep. -/
def slept (x : Exchange Thread) (t : Thread) : Exchange Thread :=
  { x with completion := x.completion.slept t }

variable {x x' : Exchange Thread} {t : Thread} {n : Nat}

theorem request_eq_ok {marks : Bool} :
    x.request marks t = .ok x' ↔ x.busy = false ∧ x' = x.requested marks t := by
  unfold request
  cases x.busy <;> simp [eq_comm]

theorem interrupt_eq_some :
    x.interrupt n = some x' ↔ n ∈ x.pending ∧ x' = x.interrupted n := by
  unfold interrupt
  split <;> simp [*, eq_comm]

/-- The two outcomes of a pass of `P`. -/
theorem wait_cases (h : x.wait t = some x') :
    (x.completion.sem.value ≠ 0 ∧ x' = x.passed t) ∨
    (x.completion.sem.value = 0 ∧ x' = x.slept t) := by
  obtain ⟨sem, pass, rfl⟩ := Option.map_eq_some_iff.mp h
  rcases SemState.pass_cases pass with ⟨value, rfl⟩ | ⟨value, rfl⟩
  · refine .inl ⟨value, ?_⟩
    simp [afterTest, passed, SemState.consumed]
  · refine .inr ⟨value, ?_⟩
    simp [afterTest, slept, SemState.slept]

end Exchange

/-- The completion of the outstanding request is either an interrupt to come or a
unit of the semaphore, never both. -/
structure ExchangeInvariant (x : Exchange Thread) : Prop where
  only : ∀ t u, x.waiting t ≠ none → x.waiting u ≠ none → t = u
  atRest : (∀ t, x.waiting t = none) → x.busy = false ∧ x.pending = [] ∧ x.completion.sem.value = 0
  outstanding : ∀ t n, x.waiting t = some n →
    x.pending = [n] ∧ x.completion.sem.value = 0 ∨
    x.busy = false ∧ x.pending = [] ∧ x.completion.sem.value = 1 ∧ n ∈ x.fired

namespace ExchangeInvariant

variable {x : Exchange Thread} {t : Thread} {n : Nat}

omit [DecidableEq Thread] in
theorem initial : ExchangeInvariant (Exchange.initial : Exchange Thread) where
  only := by simp [Exchange.initial]
  atRest := by simp [Exchange.initial, SemState.initial, Semaphore.new]
  outstanding := by simp [Exchange.initial]

/-- A request that is made while no other one is outstanding. -/
theorem requested (inv : ExchangeInvariant x) (alone : ∀ u, x.waiting u = none) (marks : Bool) :
    ExchangeInvariant (x.requested marks t) := by
  obtain ⟨_, pending, value⟩ := inv.atRest alone
  have only : ∀ u, (x.requested marks t).waiting u ≠ none → u = t := by
    intro u hu
    by_contra hne
    exact hu (by simp [Exchange.requested, Function.update_of_ne hne, alone u])
  constructor
  · intro u w hu hw
    rw [only u hu, only w hw]
  · intro none
    have := none t
    simp [Exchange.requested] at this
  · intro u m hu
    obtain rfl := only u (by simp [hu])
    have hm : x.issued = m := by simpa [Exchange.requested] using hu
    subst hm
    exact .inl ⟨by simp [Exchange.requested, pending], value⟩

/-- `P` returns only to the thread whose interrupt has come. -/
theorem passed (inv : ExchangeInvariant x) (waits : x.waiting t = some n)
    (available : x.completion.sem.value ≠ 0) :
    n ∈ x.fired ∧ ExchangeInvariant (x.passed t) := by
  rcases inv.outstanding t n waits with ⟨_, value⟩ | ⟨busy, pending, value, fired⟩
  · exact absurd value available
  · have none : ∀ u, (x.passed t).waiting u = none := by
      intro u
      by_cases hu : u = t
      · simp [Exchange.passed, hu]
      · by_contra hw
        simp only [Exchange.passed, Function.update_of_ne hu] at hw
        exact hu (inv.only u t hw (by simp [waits]))
    refine ⟨fired, ⟨fun u _ hu => absurd (none u) hu, fun _ => ⟨busy, pending, ?_⟩, ?_⟩⟩
    · simp [Exchange.passed, SemState.consumed, value]
    · intro u m hu
      simp [none u] at hu

theorem slept (inv : ExchangeInvariant x) : ExchangeInvariant (x.slept t) where
  only := inv.only
  atRest := inv.atRest
  outstanding := inv.outstanding

theorem interrupted (inv : ExchangeInvariant x) (scheduled : n ∈ x.pending) :
    ExchangeInvariant (x.interrupted n) := by
  refine ⟨inv.only, fun none => ?_, fun t m hm => ?_⟩
  · have := (inv.atRest none).2.1
    simp [this] at scheduled
  · rcases inv.outstanding t m hm with ⟨pending, value⟩ | ⟨_, pending, _⟩
    · have hn : n = m := by simpa [pending] using scheduled
      subst hn
      refine .inr ⟨rfl, ?_, ?_, ?_⟩
      · simp [Exchange.interrupted, pending]
      · simp [Exchange.interrupted, value]
      · simp [Exchange.interrupted]
    · simp [pending] at scheduled

omit [DecidableEq Thread] in
/-- The bounds that hold whether or not a request is outstanding. -/
theorem bounds (inv : ExchangeInvariant x) :
    x.pending.length ≤ 1 ∧ (x.completion.sem.value = 0 ∨ x.completion.sem.value = 1) := by
  by_cases none : ∀ t, x.waiting t = none
  · obtain ⟨_, pending, value⟩ := inv.atRest none
    exact ⟨by simp [pending], .inl value⟩
  · push Not at none
    obtain ⟨t, ht⟩ := none
    obtain ⟨n, hn⟩ := Option.ne_none_iff_exists'.mp ht
    rcases inv.outstanding t n hn with ⟨pending, value⟩ | ⟨_, pending, value, _⟩
    · exact ⟨by simp [pending], .inl value⟩
    · exact ⟨by simp [pending], .inr value⟩

end ExchangeInvariant

end Exchange

namespace LockState

variable {Thread : Type} [DecidableEq Thread] {lock after : LockState Thread} {t : Thread}
  {e : LockEvent Thread}

omit [DecidableEq Thread] in
theorem continues_busy (continues : lock.continues t = some e) : lock.pc t ≠ .idle := by
  intro idle
  simp [LockState.continues, idle] at continues

omit [DecidableEq Thread] in
theorem continues_thread (continues : lock.continues t = some e) : e.thread = t := by
  unfold LockState.continues at continues
  split at continues <;> cases continues <;> rfl

/-- What the next step of a call on the lock does to the thread inside it. -/
theorem continues_own (continues : lock.continues t = some e) (step : next e lock = some after) :
    (lock.pc t = .acquiring ∧ (after.pc t = .pastP ∨ after.pc t = .acquiring) ∧
      after.inside t = lock.inside t) ∨
    (lock.pc t = .pastP ∧ after.pc t = .idle ∧ after.inside t = true) ∨
    (lock.pc t = .releasing ∧ after.pc t = .idle ∧ after.inside t = lock.inside t) := by
  have own := (next_effect step).own (continues_thread continues)
  unfold LockState.continues at continues
  split at continues
  · cases continues
  next pc =>
    cases continues
    simp only [reduceCtorEq, false_and, or_false, false_or, true_and] at own
    exact .inl own
  next pc =>
    cases continues
    simp only [reduceCtorEq, false_and, or_false, false_or, true_and] at own
    exact .inr (.inl own)
  next pc =>
    cases continues
    simp only [reduceCtorEq, false_and, false_or, true_and] at own
    exact .inr (.inr own)

/-- A thread in or after `Acquire` stays there. -/
theorem continues_entering (continues : lock.continues t = some e)
    (step : next e lock = some after) (place : (lock.pc t).Entering (lock.inside t)) :
    (after.pc t).Entering (after.inside t) := by
  rcases continues_own continues step with ⟨pc, pc', inside⟩ | ⟨pc, pc', inside⟩ | ⟨pc, _⟩
  · rw [inside]
    exact .inl ⟨pc'.symm, by simpa [LockPc.Entering, pc] using place⟩
  · exact .inr ⟨pc', inside⟩
  · simp [LockPc.Entering, pc] at place

/-- A thread in or after `Release` stays there. -/
theorem continues_leaving (continues : lock.continues t = some e)
    (step : next e lock = some after)
    (place : (lock.pc t = .idle ∨ lock.pc t = .releasing) ∧ lock.inside t = false) :
    (after.pc t = .idle ∨ after.pc t = .releasing) ∧ after.inside t = false := by
  rcases continues_own continues step with ⟨pc, _⟩ | ⟨pc, _⟩ | ⟨_, pc', inside⟩
  · simp [pc] at place
  · simp [pc] at place
  · exact ⟨.inl pc', inside.trans place.2⟩

end LockState

/-- A request that was made: by whom, what it asked for and what was transferred. -/
structure Call (Thread Request Reply : Type) where
  thread : Thread
  request : Request
  reply : Reply
  deriving DecidableEq

/-- Where a thread stands; a request that was made is known by its number. -/
inductive DriverPc (Thread Request Reply : Type) where
  | idle
  /-- In or after `lock->Acquire()`, before the request. -/
  | acquiring (request : Request)
  /-- Before or in `semaphore->P()`. -/
  | waiting (serial : Nat) (call : Call Thread Request Reply)
  /-- Before `lock->Release()`. -/
  | releasing (serial : Nat) (call : Call Thread Request Reply)
  /-- In or after `lock->Release()`, before the return. -/
  | returning (serial : Nat) (call : Call Thread Request Reply)
  deriving DecidableEq

structure Driver (Thread Request Reply Device : Type) where
  lock : LockState Thread
  exchange : Exchange Thread
  device : Device
  pc : Thread → DriverPc Thread Request Reply
  /-- The requests in the order in which they were made. -/
  calls : List (Call Thread Request Reply)
  /-- The calls that returned, with the numbers of their requests. -/
  returned : List (Nat × Call Thread Request Reply)

inductive DriverEvent (Thread Request : Type) where
  | call (t : Thread) (request : Request)
  | step (t : Thread)
  | interrupt (serial : Nat)

section Driver

variable {Thread Request Reply Device : Type} [DecidableEq Thread]

namespace Driver

def initial (device : Device) : Driver Thread Request Reply Device where
  lock := .initial
  exchange := .initial
  device := device
  pc := fun _ => .idle
  calls := []
  returned := []

def locked (s : Driver Thread Request Reply Device) (t : Thread)
    (pc : DriverPc Thread Request Reply) (lock : LockState Thread) :
    Driver Thread Request Reply Device :=
  { s with lock, pc := Function.update s.pc t pc }

/-- A step of the lock's code, after which `t` is at `pc`. -/
def callLock (s : Driver Thread Request Reply Device) (t : Thread) (e : LockEvent Thread)
    (pc : DriverPc Thread Request Reply) : Option (Driver Thread Request Reply Device) :=
  (LockState.next e s.lock).map (s.locked t pc)

def issued (s : Driver Thread Request Reply Device) (marks : Bool)
    (call : Call Thread Request Reply) (device : Device) : Driver Thread Request Reply Device :=
  { s with
    exchange := s.exchange.requested marks call.thread
    device
    pc := Function.update s.pc call.thread (.waiting s.exchange.issued call)
    calls := s.calls ++ [call] }

/-- A pass of `semaphore->P()` left the exchange as `exchange`. -/
def waited (s : Driver Thread Request Reply Device) (t : Thread) (serial : Nat)
    (call : Call Thread Request Reply) (exchange : Exchange Thread) :
    Driver Thread Request Reply Device :=
  { s with
    exchange
    pc := if exchange.waiting t = none then Function.update s.pc t (.releasing serial call)
      else s.pc }

def returns (s : Driver Thread Request Reply Device) (t : Thread) (serial : Nat)
    (call : Call Thread Request Reply) : Driver Thread Request Reply Device :=
  { s with
    pc := Function.update s.pc t .idle
    returned := s.returned ++ [(serial, call)] }

variable (perform : Request → Device → Option (Reply × Device)) (marks : Bool)

/-- `device->Request(..)`: the assertion that the device is free, then the
assertions on the arguments and the transfer. -/
def issue (s : Driver Thread Request Reply Device) (t : Thread) (request : Request) :
    Except RequestFault (Driver Thread Request Reply Device) := do
  let _ ← s.exchange.request marks t
  match perform request s.device with
  | none => .error .refused
  | some (reply, device) => .ok (s.issued marks ⟨t, request, reply⟩ device)

/-- The next statement, for a thread that is not inside a call on the lock. -/
def body (s : Driver Thread Request Reply Device) (t : Thread) :
    Option (Except RequestFault (Driver Thread Request Reply Device)) :=
  match s.pc t with
  | .idle => none
  | .acquiring request => some (s.issue perform marks t request)
  | .waiting serial call => (s.exchange.wait t).map (fun x => .ok (s.waited t serial call x))
  | .releasing serial call => (s.callLock t (.release t) (.returning serial call)).map .ok
  | .returning serial call => some (.ok (s.returns t serial call))

/-- `none` when the event cannot happen, an error when an assertion of the
request fails. -/
def step : DriverEvent Thread Request → Driver Thread Request Reply Device →
    Option (Except RequestFault (Driver Thread Request Reply Device))
  | .call t request, s =>
    match s.pc t with
    | .idle => (s.callLock t (.acquire t) (.acquiring request)).map .ok
    | _ => none
  | .step t, s =>
    if s.lock.pc t = .idle then s.body perform marks t
    else (s.lock.continues t).bind fun e => (s.callLock t e (s.pc t)).map .ok
  | .interrupt serial, s => (s.exchange.interrupt serial).map fun exchange => .ok { s with exchange }

end Driver

variable (perform : Request → Device → Option (Reply × Device)) (marks : Bool)

/-- All interleavings of the calls with the device's interrupts; a failed
assertion has no successor. -/
def driverMachine (original : Device) :
    Machine (Driver Thread Request Reply Device) (DriverEvent Thread Request) where
  init s := s = .initial original
  next e s := (s.step perform marks e).bind Except.toOption

/-- The device after the calls, each of which transferred what the device then had. -/
inductive Performs (original : Device) : List (Call Thread Request Reply) → Device → Prop
  | nil : Performs original [] original
  | snoc {calls : List (Call Thread Request Reply)} {device device' : Device}
      {call : Call Thread Request Reply} (before : Performs original calls device)
      (performed : perform call.request device = some (call.reply, device')) :
      Performs original (calls ++ [call]) device'

omit [DecidableEq Thread] in
variable {perform} in
/-- Each call was performed on the device that the calls before it left. -/
theorem Performs.get {original device : Device} {calls : List (Call Thread Request Reply)}
    (h : Performs perform original calls device) {k : Nat} {call : Call Thread Request Reply}
    (at_k : calls[k]? = some call) :
    ∃ before after, Performs perform original (calls.take k) before ∧
      perform call.request before = some (call.reply, after) := by
  induction h with
  | nil => simp at at_k
  | @snoc calls device device' last before performed ih =>
    by_cases hk : k < calls.length
    · rw [List.getElem?_append_left hk] at at_k
      rw [List.take_append_of_le_length (Nat.le_of_lt hk)]
      exact ih at_k
    · have hk' : k = calls.length := by
        have := (List.getElem?_eq_some_iff.mp at_k).1
        simp only [List.length_append, List.length_singleton] at this
        omega
      subst hk'
      simp only [List.getElem?_concat_length, Option.some.injEq] at at_k
      subst at_k
      exact ⟨device, device', by simpa using before, performed⟩

namespace Driver

variable {perform marks} {s s' : Driver Thread Request Reply Device} {t : Thread}

/-- The calls on the lock: from where, and where they lead. -/
inductive Turn (s : Driver Thread Request Reply Device) (t : Thread) :
    LockEvent Thread → DriverPc Thread Request Reply → Prop
  | call (request : Request) (pc : s.pc t = .idle) : Turn s t (.acquire t) (.acquiring request)
  | inner (e : LockEvent Thread) (continues : s.lock.continues t = some e) : Turn s t e (s.pc t)
  | release (serial : Nat) (call : Call Thread Request Reply)
      (pc : s.pc t = .releasing serial call) : Turn s t (.release t) (.returning serial call)

variable (perform marks) in
/-- Everything one event can do. -/
inductive Effect (s : Driver Thread Request Reply Device) :
    Driver Thread Request Reply Device → Prop
  | lock (t : Thread) (e : LockEvent Thread) (after : LockState Thread)
      (pc : DriverPc Thread Request Reply) (turn : s.Turn t e pc)
      (step : LockState.next e s.lock = some after) : Effect s (s.locked t pc after)
  | issue (call : Call Thread Request Reply) (device : Device)
      (pc : s.pc call.thread = .acquiring call.request) (rest : s.lock.pc call.thread = .idle)
      (performed : perform call.request s.device = some (call.reply, device)) :
      Effect s (s.issued marks call device)
  | wait (t : Thread) (serial : Nat) (call : Call Thread Request Reply)
      (exchange : Exchange Thread) (pc : s.pc t = .waiting serial call)
      (rest : s.lock.pc t = .idle) (wait : s.exchange.wait t = some exchange) :
      Effect s (s.waited t serial call exchange)
  | returns (t : Thread) (serial : Nat) (call : Call Thread Request Reply)
      (pc : s.pc t = .returning serial call) (rest : s.lock.pc t = .idle) :
      Effect s (s.returns t serial call)
  | interrupt (serial : Nat) (pending : serial ∈ s.exchange.pending) :
      Effect s { s with exchange := s.exchange.interrupted serial }

omit [DecidableEq Thread] in
theorem Turn.thread {e : LockEvent Thread} {pc : DriverPc Thread Request Reply}
    (turn : s.Turn t e pc) : e.thread = t := by
  cases turn with
  | call | release => rfl
  | inner e continues => exact LockState.continues_thread continues

theorem callLock_effect {e : LockEvent Thread} {pc : DriverPc Thread Request Reply}
    (turn : s.Turn t e pc) (h : s.callLock t e pc = some s') : s.Effect perform marks s' := by
  obtain ⟨after, step, rfl⟩ := Option.map_eq_some_iff.mp h
  exact .lock t e after pc turn step

theorem body_effect (rest : s.lock.pc t = .idle) (h : s.body perform marks t = some (.ok s')) :
    s.Effect perform marks s' := by
  unfold body at h
  split at h
  · cases h
  next request pc =>
    obtain ⟨_, _, h⟩ := Exec.bind_eq_ok.mp (Option.some.inj h)
    split at h
    · cases h
    next reply device performed =>
      cases h
      exact .issue ⟨t, request, reply⟩ device pc rest performed
  next serial call pc =>
    obtain ⟨exchange, wait, h⟩ := Option.map_eq_some_iff.mp h
    cases h
    exact .wait t serial call exchange pc rest wait
  next serial call pc =>
    obtain ⟨after, step, h⟩ := Option.map_eq_some_iff.mp h
    cases h
    exact callLock_effect (.release serial call pc) step
  next serial call pc =>
    cases h
    exact .returns t serial call pc rest

theorem step_effect {e : DriverEvent Thread Request}
    (h : s.step perform marks e = some (.ok s')) : s.Effect perform marks s' := by
  cases e with
  | call t request =>
    simp only [step] at h
    split at h
    next pc =>
      obtain ⟨after, step, h⟩ := Option.map_eq_some_iff.mp h
      cases h
      exact callLock_effect (.call request pc) step
    · cases h
  | step t =>
    simp only [step] at h
    split at h
    next rest => exact body_effect rest h
    · obtain ⟨e, continues, h⟩ := Option.bind_eq_some_iff.mp h
      obtain ⟨after, step, h⟩ := Option.map_eq_some_iff.mp h
      cases h
      exact callLock_effect (.inner e continues) step
  | interrupt serial =>
    obtain ⟨exchange, fires, h⟩ := Option.map_eq_some_iff.mp h
    obtain ⟨pending, rfl⟩ := Exchange.interrupt_eq_some.mp fires
    cases h
    exact .interrupt serial pending

/-- Requests are only ever added to the record. -/
theorem Effect.calls (h : s.Effect perform marks s') : s.calls <+: s'.calls := by
  cases h with
  | issue call device => exact List.prefix_append _ _
  | lock | wait | returns | interrupt => exact List.prefix_rfl

/-- A thread on its way to a request was called with it. -/
theorem step_acquiring {e : DriverEvent Thread Request} {request : Request}
    (h : s.step perform marks e = some (.ok s')) (pc : s'.pc t = .acquiring request) :
    s.pc t = .acquiring request ∨ e = .call t request := by
  -- Where the thread that moved stands now, if it moved at all.
  have moved : ∀ u (pc' : DriverPc Thread Request Reply), s'.pc = Function.update s.pc u pc' →
      s.pc t = .acquiring request ∨ t = u ∧ pc' = .acquiring request := by
    intro u pc' same
    rw [same] at pc
    by_cases ht : t = u
    · subst ht
      rw [Function.update_self] at pc
      exact .inr ⟨rfl, pc⟩
    · rw [Function.update_of_ne ht] at pc
      exact .inl pc
  cases e with
  | call u request' =>
    simp only [step] at h
    split at h
    · obtain ⟨_, called, h⟩ := Option.map_eq_some_iff.mp h
      obtain ⟨lock, _, rfl⟩ := Option.map_eq_some_iff.mp called
      cases h
      rcases moved u _ rfl with before | ⟨rfl, own⟩
      · exact .inl before
      · cases own
        exact .inr rfl
    · cases h
  | interrupt serial =>
    obtain ⟨_, _, h⟩ := Option.map_eq_some_iff.mp h
    cases h
    exact .inl pc
  | step u =>
    simp only [step] at h
    split at h
    · unfold body at h
      split at h
      · cases h
      · obtain ⟨_, _, h⟩ := Exec.bind_eq_ok.mp (Option.some.inj h)
        split at h
        · cases h
        · cases h
          exact (moved u _ rfl).imp_right fun own => by cases own.2
      next serial call _ =>
        obtain ⟨exchange, _, h⟩ := Option.map_eq_some_iff.mp h
        cases h
        by_cases completed : exchange.waiting u = none
        · exact (moved u _ (if_pos completed)).imp_right fun own => by cases own.2
        · simp only [waited, if_neg completed] at pc
          exact .inl pc
      · obtain ⟨_, called, h⟩ := Option.map_eq_some_iff.mp h
        obtain ⟨lock, _, rfl⟩ := Option.map_eq_some_iff.mp called
        cases h
        exact (moved u _ rfl).imp_right fun own => by cases own.2
      · cases h
        exact (moved u _ rfl).imp_right fun own => by cases own.2
    · obtain ⟨e, _, h⟩ := Option.bind_eq_some_iff.mp h
      obtain ⟨_, called, h⟩ := Option.map_eq_some_iff.mp h
      obtain ⟨lock, _, rfl⟩ := Option.map_eq_some_iff.mp called
      cases h
      rcases moved u _ rfl with before | ⟨rfl, own⟩
      · exact .inl before
      · exact .inl own

theorem next_effect {original : Device} {e : DriverEvent Thread Request}
    (h : (driverMachine perform marks original).next e s = some s') :
    s.Effect perform marks s' :=
  step_effect (Exec.bind_toOption_eq_some.mp h)

end Driver

/-- The lock of a driver is run as a lock. -/
def driverLock (original : Device) :
    Machine.Projection
      (driverMachine perform marks original :
        Machine (Driver Thread Request Reply Device) (DriverEvent Thread Request))
      (lockMachine Thread) where
  abs := Driver.lock
  init := by
    intro s h
    rw [h]
    rfl
  step := by
    intro e s s' h
    cases Driver.next_effect h with
    | lock t e after pc _ step => exact .inr ⟨e, step⟩
    | issue | wait | returns | interrupt => exact .inl rfl

namespace DriverPc

/-- What a place says about the thread's place in the lock's code and about the
request it waits for. -/
def At : DriverPc Thread Request Reply → LockPc → Bool → Option Nat → Prop
  | idle, lock, inside, waits => lock = .idle ∧ inside = false ∧ waits = none
  | acquiring _, lock, inside, waits => lock.Entering inside ∧ waits = none
  | waiting serial _, lock, inside, waits => lock = .idle ∧ inside = true ∧ waits = some serial
  | releasing _ _, lock, inside, waits => lock = .idle ∧ inside = true ∧ waits = none
  | returning _ _, lock, inside, waits =>
    (lock = .idle ∨ lock = .releasing) ∧ inside = false ∧ waits = none

/-- The request made in the current call. -/
def made : DriverPc Thread Request Reply → Option (Nat × Call Thread Request Reply)
  | idle | acquiring _ => none
  | waiting serial call | releasing serial call | returning serial call => some (serial, call)

/-- The request whose `P` has returned. -/
def completed : DriverPc Thread Request Reply → Option Nat
  | idle | acquiring _ | waiting _ _ => none
  | releasing serial _ | returning serial _ => some serial

end DriverPc

structure DriverInvariant (original : Device) (s : Driver Thread Request Reply Device) : Prop where
  exchange : ExchangeInvariant s.exchange
  place : ∀ t, (s.pc t).At (s.lock.pc t) (s.lock.inside t) (s.exchange.waiting t)
  numbered : s.calls.length = s.exchange.issued
  made : ∀ t serial call, (s.pc t).made = some (serial, call) →
    call.thread = t ∧ s.calls[serial]? = some call
  completed : ∀ t serial, (s.pc t).completed = some serial → serial ∈ s.exchange.fired
  returned : ∀ serial call, (serial, call) ∈ s.returned →
    serial ∈ s.exchange.fired ∧ s.calls[serial]? = some call
  performs : Performs perform original s.calls s.device

namespace DriverInvariant

variable {perform marks} {original : Device} {s s' : Driver Thread Request Reply Device}
  {t : Thread}

omit [DecidableEq Thread] in
theorem initial :
    DriverInvariant perform original (.initial original : Driver Thread Request Reply Device) where
  exchange := .initial
  place := by simp [Driver.initial, LockState.initial, Exchange.initial, DriverPc.At]
  numbered := rfl
  made := by simp [Driver.initial, DriverPc.made]
  completed := by simp [Driver.initial, DriverPc.completed]
  returned := by simp [Driver.initial]
  performs := .nil

/-- The caller's own place after a step of the lock's code. -/
theorem locked_place (inv : DriverInvariant perform original s) {e : LockEvent Thread}
    {after : LockState Thread} {pc : DriverPc Thread Request Reply} (turn : s.Turn t e pc)
    (step : LockState.next e s.lock = some after) :
    pc.At (after.pc t) (after.inside t) (s.exchange.waiting t) := by
  have place := inv.place t
  have own := (LockState.next_effect step).own turn.thread
  cases turn with
  | call request pc =>
    rw [pc] at place
    simp only [reduceCtorEq, false_and, or_false, true_and] at own
    exact ⟨.inl ⟨own.2.1.symm, own.2.2.trans place.2.1⟩, place.2.2⟩
  | release serial call pc =>
    rw [pc] at place
    simp only [reduceCtorEq, false_and, or_false, false_or, true_and] at own
    exact ⟨.inr own.2.1, own.2.2, place.2.2⟩
  | inner e continues =>
    have busy := LockState.continues_busy continues
    generalize s.pc t = pc at place ⊢
    -- Only the two places inside a call on the lock have a step of the lock to take.
    cases pc with
    | acquiring request => exact ⟨LockState.continues_entering continues step place.1, place.2⟩
    | returning serial call =>
      obtain ⟨lock, inside⟩ :=
        LockState.continues_leaving continues step ⟨place.1, place.2.1⟩
      exact ⟨lock, inside, place.2.2⟩
    | idle | waiting | releasing => exact absurd place.1 busy

omit [DecidableEq Thread] in
/-- A step of the lock's code neither makes nor completes a request. -/
theorem turn_made {e : LockEvent Thread} {pc : DriverPc Thread Request Reply}
    (turn : s.Turn t e pc) :
    (pc.made = none ∨ pc.made = (s.pc t).made) ∧
    (pc.completed = none ∨ pc.completed = (s.pc t).completed) := by
  cases turn with
  | call => exact ⟨.inl rfl, .inl rfl⟩
  | inner => exact ⟨.inr rfl, .inr rfl⟩
  | release serial call pc =>
    rw [pc]
    exact ⟨.inr rfl, .inr rfl⟩

theorem locked (inv : DriverInvariant perform original s) {e : LockEvent Thread}
    {after : LockState Thread} {pc : DriverPc Thread Request Reply} (turn : s.Turn t e pc)
    (step : LockState.next e s.lock = some after) :
    DriverInvariant perform original (s.locked t pc after) := by
  have others := fun u (hu : u ≠ t) =>
    (LockState.next_effect step).others (u := u) (by rw [turn.thread]; exact hu)
  obtain ⟨made, completed⟩ := turn_made turn
  refine ⟨inv.exchange, fun u => ?_, inv.numbered, fun u n c h => ?_, fun u n h => ?_,
    inv.returned, inv.performs⟩
  · by_cases hu : u = t
    · subst hu
      simpa [Driver.locked] using inv.locked_place turn step
    · simpa [Driver.locked, Function.update_of_ne hu, others u hu] using inv.place u
  · by_cases hu : u = t
    · subst hu
      simp only [Driver.locked, Function.update_self] at h
      rcases made with made | made
      · simp [made] at h
      · exact inv.made u n c (made ▸ h)
    · exact inv.made u n c (by simpa [Driver.locked, Function.update_of_ne hu] using h)
  · by_cases hu : u = t
    · subst hu
      simp only [Driver.locked, Function.update_self] at h
      rcases completed with completed | completed
      · simp [completed] at h
      · exact inv.completed u n (completed ▸ h)
    · exact inv.completed u n (by simpa [Driver.locked, Function.update_of_ne hu] using h)

omit [DecidableEq Thread] in
/-- The lock admits one thread at a time to the device: when a thread is about to
make a request, nobody else waits for one. -/
theorem alone (inv : DriverInvariant perform original s) (linv : LockInvariant s.lock)
    {request : Request} (pc : s.pc t = .acquiring request) (rest : s.lock.pc t = .idle)
    (u : Thread) : s.exchange.waiting u = none := by
  have placet := inv.place t
  rw [pc, rest] at placet
  have inside : s.lock.inside t = true := by simpa [LockPc.Entering] using placet.1
  by_contra waits
  have placeu := inv.place u
  have insideu : s.lock.inside u = true := by
    revert placeu waits
    generalize s.pc u = pcu
    cases pcu <;> simp +contextual [DriverPc.At]
  have hu : u = t := linv.exclusive u t (.inr (.inl insideu)) (.inr (.inl inside))
  subst hu
  exact waits placet.2

theorem issued (inv : DriverInvariant perform original s) (linv : LockInvariant s.lock)
    {call : Call Thread Request Reply} {device : Device}
    (pc : s.pc call.thread = .acquiring call.request) (rest : s.lock.pc call.thread = .idle)
    (performed : perform call.request s.device = some (call.reply, device)) :
    DriverInvariant perform original (s.issued marks call device) := by
  have place := inv.place call.thread
  rw [pc, rest] at place
  have inside : s.lock.inside call.thread = true := by simpa [LockPc.Entering] using place.1
  have older : ∀ (n : Nat) c, s.calls[n]? = some c → (s.calls ++ [call])[n]? = some c := by
    intro n c h
    rw [List.getElem?_append_left (List.getElem?_eq_some_iff.mp h).1, h]
  refine ⟨inv.exchange.requested (inv.alone linv pc rest) marks, fun u => ?_, ?_,
    fun u n c h => ?_, fun u n h => ?_, fun n c h => ?_, inv.performs.snoc performed⟩
  · by_cases hu : u = call.thread
    · subst hu
      simp [Driver.issued, DriverPc.At, Exchange.requested, rest, inside]
    · simpa [Driver.issued, Exchange.requested, Function.update_of_ne hu] using inv.place u
  · simp [Driver.issued, Exchange.requested, inv.numbered]
  · by_cases hu : u = call.thread
    · subst hu
      simp only [Driver.issued, Function.update_self, DriverPc.made, Option.some.injEq,
        Prod.mk.injEq] at h
      obtain ⟨rfl, rfl⟩ := h
      exact ⟨rfl, by simp [Driver.issued, ← inv.numbered]⟩
    · obtain ⟨own, made⟩ :=
        inv.made u n c (by simpa [Driver.issued, Function.update_of_ne hu] using h)
      exact ⟨own, older n c made⟩
  · by_cases hu : u = call.thread
    · subst hu
      simp [Driver.issued, DriverPc.completed] at h
    · exact inv.completed u n (by simpa [Driver.issued, Function.update_of_ne hu] using h)
  · obtain ⟨fired, made⟩ := inv.returned n c h
    exact ⟨fired, older n c made⟩

theorem waited (inv : DriverInvariant perform original s) {serial : Nat}
    {call : Call Thread Request Reply} {exchange : Exchange Thread}
    (pc : s.pc t = .waiting serial call) (wait : s.exchange.wait t = some exchange) :
    DriverInvariant perform original (s.waited t serial call exchange) := by
  have place := inv.place t
  rw [pc] at place
  obtain ⟨lock, inside, waits⟩ := place
  rcases Exchange.wait_cases wait with ⟨available, rfl⟩ | ⟨_, rfl⟩
  · obtain ⟨fired, exchange⟩ := inv.exchange.passed waits available
    have moved : (s.waited t serial call (s.exchange.passed t)).pc =
        Function.update s.pc t (.releasing serial call) := by
      simp [Driver.waited, Exchange.passed]
    refine ⟨exchange, fun u => ?_, inv.numbered, fun u n c h => ?_, fun u n h => ?_,
      inv.returned, inv.performs⟩
    · rw [moved]
      by_cases hu : u = t
      · subst hu
        simp [Driver.waited, DriverPc.At, Exchange.passed, lock, inside]
      · simpa [Driver.waited, Exchange.passed, Function.update_of_ne hu] using inv.place u
    · rw [moved] at h
      by_cases hu : u = t
      · subst hu
        exact inv.made u n c (by simpa [pc, DriverPc.made] using h)
      · exact inv.made u n c (by simpa [Function.update_of_ne hu] using h)
    · rw [moved] at h
      by_cases hu : u = t
      · subst hu
        have hn : serial = n := by simpa [DriverPc.completed] using h
        exact hn ▸ fired
      · exact inv.completed u n (by simpa [Function.update_of_ne hu] using h)
  · have same : s.waited t serial call (s.exchange.slept t) =
        { s with exchange := s.exchange.slept t } := by
      simp [Driver.waited, Exchange.slept, waits]
    rw [same]
    exact ⟨inv.exchange.slept, inv.place, inv.numbered, inv.made, inv.completed, inv.returned,
      inv.performs⟩

theorem returns (inv : DriverInvariant perform original s) {serial : Nat}
    {call : Call Thread Request Reply} (pc : s.pc t = .returning serial call)
    (rest : s.lock.pc t = .idle) :
    DriverInvariant perform original (s.returns t serial call) := by
  have place := inv.place t
  rw [pc] at place
  refine ⟨inv.exchange, fun u => ?_, inv.numbered, fun u n c h => ?_, fun u n h => ?_,
    fun n c h => ?_, inv.performs⟩
  · by_cases hu : u = t
    · subst hu
      simpa [Driver.returns, DriverPc.At, rest] using place.2
    · simpa [Driver.returns, Function.update_of_ne hu] using inv.place u
  · by_cases hu : u = t
    · subst hu
      simp [Driver.returns, DriverPc.made] at h
    · exact inv.made u n c (by simpa [Driver.returns, Function.update_of_ne hu] using h)
  · by_cases hu : u = t
    · subst hu
      simp [Driver.returns, DriverPc.completed] at h
    · exact inv.completed u n (by simpa [Driver.returns, Function.update_of_ne hu] using h)
  · rcases List.mem_append.mp h with h | h
    · exact inv.returned n c h
    · obtain ⟨rfl, rfl⟩ := Prod.mk.inj (List.mem_singleton.mp h)
      exact ⟨inv.completed t n (by rw [pc]; rfl), (inv.made t n c (by rw [pc]; rfl)).2⟩

theorem interrupted (inv : DriverInvariant perform original s) {serial : Nat}
    (pending : serial ∈ s.exchange.pending) :
    DriverInvariant perform original { s with exchange := s.exchange.interrupted serial } where
  exchange := inv.exchange.interrupted pending
  place := inv.place
  numbered := inv.numbered
  made := inv.made
  completed := fun t n h => List.mem_append_left _ (inv.completed t n h)
  returned := fun n c h => (inv.returned n c h).imp_left (List.mem_append_left _)
  performs := inv.performs

theorem next (inv : DriverInvariant perform original s) (linv : LockInvariant s.lock)
    (h : s.Effect perform marks s') : DriverInvariant perform original s' := by
  cases h with
  | lock t e after pc turn step => exact inv.locked turn step
  | issue call device pc rest performed => exact inv.issued linv pc rest performed
  | wait t serial call exchange pc rest wait => exact inv.waited pc wait
  | returns t serial call pc rest => exact inv.returns pc rest
  | interrupt serial pending => exact inv.interrupted pending

theorem of_reachable [Fintype Thread]
    (h : (driverMachine perform marks original).Reachable s) :
    DriverInvariant perform original s ∧ LockInvariant s.lock := by
  induction h with
  | init h =>
    rw [h]
    exact ⟨initial, .initial⟩
  | step before _ h inv =>
    refine ⟨inv.1.next inv.2 (Driver.next_effect h), ?_⟩
    exact .of_reachable ((driverLock perform marks original).reachable
      (Machine.ReachableUnder.step before trivial h))

/-- The device is free whenever a request is made: what can fail are the
assertions on the arguments. -/
theorem step_error (inv : DriverInvariant perform original s) (linv : LockInvariant s.lock)
    {e : DriverEvent Thread Request} {fault : RequestFault}
    (h : s.step perform marks e = some (.error fault)) :
    fault = .refused ∧
    ∃ t request, s.pc t = .acquiring request ∧ perform request s.device = none := by
  cases e with
  | call t request =>
    simp only [Driver.step] at h
    split at h
    · obtain ⟨_, _, h⟩ := Option.map_eq_some_iff.mp h
      cases h
    · cases h
  | interrupt serial =>
    obtain ⟨_, _, h⟩ := Option.map_eq_some_iff.mp h
    cases h
  | step t =>
    simp only [Driver.step] at h
    split at h
    next rest =>
      unfold Driver.body at h
      split at h
      · cases h
      next request pc =>
        have free := (inv.exchange.atRest (inv.alone linv pc rest)).1
        simp only [Driver.issue, Exchange.request, free, Bool.false_eq_true, if_false,
          Exec.ok_bind, Option.some.injEq] at h
        split at h
        next unperformed =>
          cases h
          exact ⟨rfl, t, request, pc, unperformed⟩
        · cases h
      · obtain ⟨_, _, h⟩ := Option.map_eq_some_iff.mp h
        cases h
      · obtain ⟨_, _, h⟩ := Option.map_eq_some_iff.mp h
        cases h
      · cases h
    · obtain ⟨_, _, h⟩ := Option.bind_eq_some_iff.mp h
      obtain ⟨_, _, h⟩ := Option.map_eq_some_iff.mp h
      cases h

theorem step_ne_busy (inv : DriverInvariant perform original s) (linv : LockInvariant s.lock)
    (e : DriverEvent Thread Request) : s.step perform marks e ≠ some (.error .busy) := by
  intro h
  cases (inv.step_error linv h).1

end DriverInvariant

end Driver

end NachOS.Threads
