import Mathlib.Data.List.Range
import NachOS.Lib.Machine
import NachOS.Lib.Memory
import NachOS.Library.List

/-!
# Simulated time and interrupts (machine/interrupt.cc, machine/stats.h)

`Schedule` puts a device interrupt on a list sorted by its time. Time advances in
`OneTick` (called for every user instruction and whenever interrupts are enabled)
and in `Idle`, which jumps to the next interrupt; both then fire what is due in
`CheckIfDue`. A handler runs in the middle of the loop of `CheckIfDue` and may
schedule further interrupts, so the loop is one event for each handler call.

The handlers are arbitrary: the event says what the handler of the interrupt that
fires does. `serial` numbers the interrupts in the order of `Schedule` calls and
`fired` is the history of the handler calls; the code has neither.
-/
namespace NachOS
open NachOS.Lib NachOS.Library

inductive IntStatus where
  | off
  | on
  deriving DecidableEq

inductive MachineStatus where
  | idleMode
  | systemMode
  | userMode
  deriving DecidableEq

inductive IntType where
  | timerInt
  | diskInt
  | consoleWriteInt
  | consoleReadInt
  | networkSendInt
  | networkRecvInt
  deriving DecidableEq

def UserTick : Int := 1

def SystemTick : Int := 10

structure PendingInterrupt where
  /-- The object to call; object numbers stand for pointers. -/
  callOnInterrupt : Nat
  when : Int
  type : IntType
  serial : Nat
  deriving DecidableEq

def PendingCompare (x y : PendingInterrupt) : Int :=
  if x.when < y.when then -1 else if x.when > y.when then 1 else 0

/-- An interrupt that was fired, and `totalTicks` when its handler was called. -/
structure Fired where
  interrupt : PendingInterrupt
  time : Int
  deriving DecidableEq

/-- Where the interrupt simulation stands. -/
inductive Checking where
  /-- Outside of `OneTick` and `Idle`. -/
  | outside
  /-- At the top of the loop in `CheckIfDue`, called by `Idle` or by `OneTick`. -/
  | firing (idle : Bool)
  /-- `CheckIfDue` has returned `result`. -/
  | checked (idle : Bool) (result : Bool)
  deriving DecidableEq

structure Interrupt where
  level : IntStatus
  pending : List PendingInterrupt
  inHandler : Bool
  yieldOnReturn : Bool
  status : MachineStatus
  totalTicks : Int
  idleTicks : Int
  systemTicks : Int
  userTicks : Int
  checking : Checking
  scheduled : Nat
  fired : List Fired
  deriving DecidableEq

/-- What an interrupt handler does to the interrupt simulation. -/
inductive DeviceCall where
  | schedule (toCall : Nat) (fromNow : Int) (type : IntType)
  | v
  | yieldOnReturn
  deriving DecidableEq

namespace Interrupt

def initial : Interrupt where
  level := .off
  pending := []
  inHandler := false
  yieldOnReturn := false
  status := .systemMode
  totalTicks := 0
  idleTicks := 0
  systemTicks := 0
  userTicks := 0
  checking := .outside
  scheduled := 0
  fired := []

/-- `Interrupt::Schedule`. -/
def schedule (s : Interrupt) (toCall : Nat) (fromNow : Int) (type : IntType) : Exec Interrupt := do
  let when := int32 (s.totalTicks + fromNow)
  let toOccur : PendingInterrupt := ⟨toCall, when, type, s.scheduled⟩
  check (0 < fromNow) .assertion
  match insert PendingCompare s.pending toOccur with
  | none => .error .assertion
  | some pending => .ok { s with pending, scheduled := s.scheduled + 1 }

/-- `Interrupt::YieldOnReturn`. -/
def setYieldOnReturn (s : Interrupt) : Exec Interrupt := do
  check (s.inHandler = true) .assertion
  .ok { s with yieldOnReturn := true }

/-- `Interrupt::CheckIfDue`, up to the loop. -/
def checkIfDue (s : Interrupt) (advanceClock : Bool) : Exec Interrupt := do
  check (s.level = .off) .assertion
  match s.pending with
  | [] => .ok { s with checking := .checked advanceClock false }
  | next :: _ =>
    if s.totalTicks < next.when then
      if advanceClock then
        .ok { s with
          idleTicks := int32 (s.idleTicks + int32 (next.when - s.totalTicks))
          totalTicks := next.when
          inHandler := true
          checking := .firing true }
      else .ok { s with checking := .checked false false }
    else .ok { s with inHandler := true, checking := .firing advanceClock }

/-- `Interrupt::OneTick`, up to the loop of `CheckIfDue`. -/
def oneTick (s : Interrupt) : Exec Interrupt :=
  let s :=
    if s.status = .systemMode then
      { s with
        totalTicks := int32 (s.totalTicks + SystemTick)
        systemTicks := int32 (s.systemTicks + SystemTick) }
    else
      { s with
        totalTicks := int32 (s.totalTicks + UserTick)
        userTicks := int32 (s.userTicks + UserTick) }
  { s with level := .off }.checkIfDue false

/-- `Interrupt::SetLevel`. -/
def setLevel (s : Interrupt) (now : IntStatus) : Exec Interrupt := do
  let old := s.level
  check (now = .off ∨ s.inHandler = false) .assertion
  let s := { s with level := now }
  if now = .on ∧ old = .off then s.oneTick else .ok s

/-- `Interrupt::Idle`, up to the loop of `CheckIfDue`. -/
def idle (s : Interrupt) : Exec Interrupt :=
  { s with status := .idleMode }.checkIfDue true

/-- One call that a handler makes; `Semaphore::V` sets the level and restores it. -/
def call (s : Interrupt) : DeviceCall → Exec Interrupt
  | .schedule toCall fromNow type => s.schedule toCall fromNow type
  | .v => do
    let oldLevel := s.level
    let s ← s.setLevel .off
    s.setLevel oldLevel
  | .yieldOnReturn => s.setYieldOnReturn

def callBack (s : Interrupt) : List DeviceCall → Exec Interrupt
  | [] => .ok s
  | c :: calls => do
    let s ← s.call c
    s.callBack calls

/-- The test at the end of the loop in `CheckIfDue`. -/
def again (s : Interrupt) (idle : Bool) : Interrupt :=
  match s.pending with
  | [] => { s with inHandler := false, checking := .checked idle true }
  | next :: _ =>
    if next.when ≤ s.totalTicks then s
    else { s with inHandler := false, checking := .checked idle true }

/-- The body of the loop in `CheckIfDue`: the front interrupt fires, and its
handler makes these calls. -/
def fire (s : Interrupt) (idle : Bool) (calls : List DeviceCall) : Exec Interrupt :=
  match removeFront s.pending with
  | none => .error .assertion
  | some (next, pending) => do
    let s := { s with pending, fired := s.fired ++ [Fired.mk next s.totalTicks] }
    let s ← s.callBack calls
    .ok (s.again idle)

/-- The rest of `Idle` or `OneTick`, up to the call of `Yield`; its `SetLevel`
calls, and the later `status = oldStatus`, are further events. -/
def afterCheck (s : Interrupt) (idle result : Bool) : Exec Interrupt :=
  let s := { s with checking := .outside }
  if idle then
    if result then .ok { s with status := .systemMode } else .error .halted
  else
    let s := { s with level := .on }
    if s.yieldOnReturn then .ok { s with yieldOnReturn := false, status := .systemMode } else .ok s

end Interrupt

inductive InterruptEvent where
  | schedule (toCall : Nat) (fromNow : Int) (type : IntType)
  | setLevel (now : IntStatus)
  | oneTick
  | idle
  | setStatus (status : MachineStatus)
  | fire (calls : List DeviceCall)
  | afterCheck
  deriving DecidableEq

namespace Interrupt

def next : InterruptEvent → Interrupt → Option Interrupt
  | .schedule toCall fromNow type, s =>
    if s.checking = .outside then (s.schedule toCall fromNow type).toOption else none
  | .setLevel now, s => if s.checking = .outside then (s.setLevel now).toOption else none
  | .oneTick, s => if s.checking = .outside then s.oneTick.toOption else none
  | .idle, s => if s.checking = .outside then s.idle.toOption else none
  | .setStatus status, s => if s.checking = .outside then some { s with status } else none
  | .fire calls, s =>
    match s.checking with
    | .firing idle => (s.fire idle calls).toOption
    | _ => none
  | .afterCheck, s =>
    match s.checking with
    | .checked idle result => (s.afterCheck idle result).toOption
    | _ => none

end Interrupt

/-- Every use of the interrupt simulation, with any handlers. -/
def interruptMachine : Machine Interrupt InterruptEvent where
  init s := s = .initial
  next := Interrupt.next

namespace Interrupt

/-- How far `OneTick` advances the clock. -/
def tick (s : Interrupt) : Int := if s.status = .systemMode then SystemTick else UserTick

/-- The time that a handler's call computes stays below 2^31. -/
def CallInRange (totalTicks : Int) : DeviceCall → Prop
  | .schedule _ fromNow _ => totalTicks + fromNow < 2147483648
  | .v => True
  | .yieldOnReturn => True

instance (totalTicks : Int) : DecidablePred (CallInRange totalTicks)
  | .schedule _ fromNow _ => inferInstanceAs (Decidable (totalTicks + fromNow < 2147483648))
  | .v => inferInstanceAs (Decidable True)
  | .yieldOnReturn => inferInstanceAs (Decidable True)

/-- The times that the event computes stay below 2^31. -/
def InRange : InterruptEvent → Interrupt → Prop
  | .schedule _ fromNow _, s => s.totalTicks + fromNow < 2147483648
  | .setLevel now, s => now = .on → s.level = .off → s.totalTicks + s.tick < 2147483648
  | .oneTick, s => s.totalTicks + s.tick < 2147483648
  | .fire calls, s => ∀ c ∈ calls, CallInRange s.totalTicks c
  | .idle, _ => True
  | .setStatus _, _ => True
  | .afterCheck, _ => True

instance : ∀ e s, Decidable (InRange e s)
  | .schedule _ fromNow _, s => inferInstanceAs (Decidable (s.totalTicks + fromNow < 2147483648))
  | .setLevel now, s => inferInstanceAs
      (Decidable (now = .on → s.level = .off → s.totalTicks + s.tick < 2147483648))
  | .oneTick, s => inferInstanceAs (Decidable (s.totalTicks + s.tick < 2147483648))
  | .fire calls, s => inferInstanceAs (Decidable (∀ c ∈ calls, CallInRange s.totalTicks c))
  | .idle, _ => inferInstanceAs (Decidable True)
  | .setStatus _, _ => inferInstanceAs (Decidable True)
  | .afterCheck, _ => inferInstanceAs (Decidable True)

/-- Earlier time first, then earlier `Schedule` call. -/
def Before (x y : PendingInterrupt) : Prop :=
  x.when < y.when ∨ (x.when = y.when ∧ x.serial < y.serial)

theorem Before.trans {x y z : PendingInterrupt} (h₁ : Before x y) (h₂ : Before y z) :
    Before x z := by
  unfold Before at *
  omega

/-- Everything scheduled so far, what fired first. -/
def history (s : Interrupt) : List PendingInterrupt :=
  s.fired.map (·.interrupt) ++ s.pending

/-- The state of the clock and of the interrupts, at any point of a run. -/
structure Timely (s : Interrupt) : Prop where
  start : 0 ≤ s.totalTicks
  below : s.totalTicks < 2147483648
  idleTicks : 0 ≤ s.idleTicks
  systemTicks : 0 ≤ s.systemTicks
  userTicks : 0 ≤ s.userTicks
  sum : s.totalTicks = s.idleTicks + s.systemTicks + s.userTicks
  near : ∀ p ∈ s.pending, p.when < 2147483648
  ordered : s.history.Pairwise Before
  due : ∀ f ∈ s.fired, f.interrupt.when ≤ f.time ∧ f.time ≤ s.totalTicks
  serials : (s.history.map (·.serial)).Perm (List.range s.scheduled)

/-- What is known inside `CheckIfDue`. -/
structure Placed (s : Interrupt) : Prop where
  firing : ∀ idle, s.checking = .firing idle →
    s.level = .off ∧ ∃ next rest, s.pending = next :: rest ∧ next.when ≤ s.totalTicks
  checked : ∀ idle, s.checking = .checked idle true → ∀ p ∈ s.pending, s.totalTicks < p.when

variable {s s' : Interrupt}

theorem Timely.serial_lt (h : s.Timely) {p : PendingInterrupt} (mem : p ∈ s.history) :
    p.serial < s.scheduled := by
  have listed : p.serial ∈ List.range s.scheduled :=
    h.serials.mem_iff.mp (List.mem_map_of_mem mem)
  exact List.mem_range.mp listed

theorem Timely.sorted (h : s.Timely) : s.pending.Pairwise Before :=
  (List.pairwise_append.mp h.ordered).2.1

theorem Timely.congr (h : s.Timely) (pending : s'.pending = s.pending) (fired : s'.fired = s.fired)
    (scheduled : s'.scheduled = s.scheduled) (totalTicks : s'.totalTicks = s.totalTicks)
    (idleTicks : s'.idleTicks = s.idleTicks) (systemTicks : s'.systemTicks = s.systemTicks)
    (userTicks : s'.userTicks = s.userTicks) : s'.Timely := by
  have history : s'.history = s.history := by simp only [history, pending, fired]
  obtain ⟨start, below, idle, system, user, sum, near, ordered, due, serials⟩ := h
  constructor
  all_goals simp only [pending, fired, scheduled, totalTicks, idleTicks, systemTicks, userTicks,
    history]
  all_goals assumption

section Schedule

variable {toCall : Nat} {fromNow : Int} {type : IntType}

theorem PendingCompare_neg {x y : PendingInterrupt} : PendingCompare x y < 0 ↔ x.when < y.when := by
  unfold PendingCompare
  split
  · simp [*]
  · split <;> simp [*]

theorem schedule_cases (h : s.schedule toCall fromNow type = .ok s') :
    0 < fromNow ∧ s' = { s with
      pending := place PendingCompare ⟨toCall, int32 (s.totalTicks + fromNow), type, s.scheduled⟩
        s.pending
      scheduled := s.scheduled + 1 } := by
  unfold schedule at h
  simp only [Exec.bind_eq_ok] at h
  obtain ⟨_, positive, h⟩ := h
  refine ⟨check_eq_ok.mp positive, ?_⟩
  split at h
  next => cases h
  next pending inserted =>
    obtain ⟨-, rfl⟩ := insert_eq_some.mp inserted
    cases h
    rfl

/-- `Schedule` of a time in the future. -/
theorem Timely.schedule_positive (h : s.Timely) (toCall : Nat) (type : IntType)
    (positive : 0 < fromNow) (inRange : s.totalTicks + fromNow < 2147483648) :
    s.schedule toCall fromNow type = .ok { s with
      pending := place PendingCompare ⟨toCall, s.totalTicks + fromNow, type, s.scheduled⟩ s.pending
      scheduled := s.scheduled + 1 } := by
  have start := h.start
  have exact' : int32 (s.totalTicks + fromNow) = s.totalTicks + fromNow :=
    int32_of_range (by omega) (by omega)
  have fresh : (⟨toCall, s.totalTicks + fromNow, type, s.scheduled⟩ : PendingInterrupt) ∉
      s.pending := by
    intro listed
    exact Nat.lt_irrefl _ (h.serial_lt (List.mem_append_right _ listed))
  simp only [Interrupt.schedule, exact', check_true positive, Exec.ok_bind,
    insert_eq_some.mpr ⟨fresh, rfl⟩]

/-- A new interrupt lies in the future, behind everything that has fired, and
after the pending ones of the same time. -/
theorem Timely.schedule (h : s.Timely) (inRange : s.totalTicks + fromNow < 2147483648)
    (run : s.schedule toCall fromNow type = .ok s') : s'.Timely := by
  obtain ⟨positive, rfl⟩ := schedule_cases run
  have start := h.start
  have exact' : int32 (s.totalTicks + fromNow) = s.totalTicks + fromNow :=
    int32_of_range (by omega) (by omega)
  rw [exact']
  generalize hx : (⟨toCall, s.totalTicks + fromNow, type, s.scheduled⟩ : PendingInterrupt) = x
  have when' : x.when = s.totalTicks + fromNow := by rw [← hx]
  have serial : x.serial = s.scheduled := by rw [← hx]
  have perm : (place PendingCompare x s.pending).Perm (x :: s.pending) := place_perm x s.pending
  have placed : (place PendingCompare x s.pending).Pairwise Before := by
    refine place_pairwise (R := Before) (fun _ _ _ h₁ h₂ => h₁.trans h₂) ?_ ?_ h.sorted
    · intro y _ below
      exact .inl (PendingCompare_neg.mp below)
    · intro y hy above
      have earlier := h.serial_lt (p := y) (List.mem_append_right _ hy)
      have := mt PendingCompare_neg.mpr above
      unfold Before
      omega
  refine { h with near := ?_, ordered := ?_, serials := ?_ }
  · intro p hp
    rcases List.mem_cons.mp (perm.mem_iff.mp hp) with rfl | hp
    · omega
    · exact h.near p hp
  · refine List.pairwise_append.mpr ⟨(List.pairwise_append.mp h.ordered).1, placed, ?_⟩
    intro y hy z hz
    rcases List.mem_cons.mp (perm.mem_iff.mp hz) with rfl | hz
    · obtain ⟨f, hf, rfl⟩ := List.mem_map.mp hy
      have := h.due f hf
      exact .inl (by omega)
    · exact (List.pairwise_append.mp h.ordered).2.2 y hy z hz
  · have moved : (s.fired.map (·.interrupt) ++ place PendingCompare x s.pending).Perm
        (x :: s.history) :=
      (perm.append_left _).trans List.perm_middle
    refine (moved.map (·.serial)).trans ?_
    rw [List.map_cons, serial, List.range_succ]
    exact (h.serials.cons _).trans (List.perm_append_singleton _ _).symm

end Schedule

section Handlers

theorem setLevel_off : s.setLevel .off = .ok { s with level := .off } := by
  unfold setLevel
  rw [check_true (.inl rfl), Exec.ok_bind, if_neg (by simp)]

/-- What the calls of a handler leave as it was. -/
structure Responds (s s' : Interrupt) : Prop where
  timely : s'.Timely
  level : s'.level = .off
  totalTicks : s'.totalTicks = s.totalTicks
  checking : s'.checking = s.checking

theorem call_responds {c : DeviceCall} (h : s.Timely) (off : s.level = .off)
    (inRange : CallInRange s.totalTicks c) (run : s.call c = .ok s') : Responds s s' := by
  cases c with
  | schedule toCall fromNow type =>
    have timely := h.schedule inRange run
    obtain ⟨-, rfl⟩ := schedule_cases run
    exact ⟨timely, off, rfl, rfl⟩
  | v =>
    simp only [call, setLevel_off, Exec.ok_bind, off] at run
    cases run
    exact ⟨h.congr rfl rfl rfl rfl rfl rfl rfl, rfl, rfl, rfl⟩
  | yieldOnReturn =>
    simp only [call, setYieldOnReturn, Exec.bind_eq_ok] at run
    obtain ⟨_, -, run⟩ := run
    cases run
    exact ⟨h.congr rfl rfl rfl rfl rfl rfl rfl, off, rfl, rfl⟩

theorem callBack_responds {calls : List DeviceCall} (h : s.Timely) (off : s.level = .off)
    (inRange : ∀ c ∈ calls, CallInRange s.totalTicks c) (run : s.callBack calls = .ok s') :
    Responds s s' := by
  induction calls generalizing s with
  | nil =>
    cases run
    exact ⟨h, off, rfl, rfl⟩
  | cons c calls ih =>
    obtain ⟨mid, first, rest⟩ := Exec.bind_eq_ok.mp run
    have one := call_responds h off (inRange c List.mem_cons_self) first
    have later := ih one.timely one.level
      (fun d mem => one.totalTicks ▸ inRange d (List.mem_cons_of_mem _ mem)) rest
    exact ⟨later.timely, later.level, later.totalTicks.trans one.totalTicks,
      later.checking.trans one.checking⟩

/-- The front interrupt moves to the end of what has fired. -/
theorem Timely.pop (h : s.Timely) {front : PendingInterrupt} {rest : List PendingInterrupt}
    (pending : s.pending = front :: rest) (due : front.when ≤ s.totalTicks) :
    Timely { s with pending := rest, fired := s.fired ++ [⟨front, s.totalTicks⟩] } := by
  have same : ({ s with
      pending := rest
      fired := s.fired ++ [⟨front, s.totalTicks⟩] } : Interrupt).history = s.history := by
    simp [history, pending]
  refine { h with near := ?_, ordered := ?_, due := ?_, serials := ?_ }
  · exact fun p hp => h.near p (by simp [pending, hp])
  · exact same ▸ h.ordered
  · intro f hf
    rcases List.mem_append.mp hf with hf | hf
    · exact h.due f hf
    · cases List.mem_singleton.mp hf
      exact ⟨due, le_rfl⟩
  · exact same ▸ h.serials

end Handlers

section Clock

/-- A state of a run, seen at any event. -/
structure Kept (s : Interrupt) : Prop where
  timely : s.Timely
  placed : s.Placed

theorem Placed.outside (h : s.checking = .outside) : s.Placed where
  firing idle e := by simp [h] at e
  checked idle e := by simp [h] at e

/-- The list is sorted, so a front that is not due settles all of it. -/
theorem Timely.none_due (h : s.Timely) {front : PendingInterrupt} {rest : List PendingInterrupt}
    (pending : s.pending = front :: rest) (late : s.totalTicks < front.when) :
    ∀ p ∈ s.pending, s.totalTicks < p.when := by
  intro p hp
  have sorted := pending ▸ h.sorted
  rw [pending] at hp
  rcases List.mem_cons.mp hp with rfl | hp
  · exact late
  · have := (List.pairwise_cons.mp sorted).1 p hp
    unfold Before at this
    omega

theorem again_kept {idle : Bool} (h : s.Timely) (off : s.level = .off)
    (loop : s.checking = .firing idle) : (s.again idle).Kept := by
  unfold again
  split
  next empty =>
    refine ⟨h.congr rfl rfl rfl rfl rfl rfl rfl, ⟨fun _ e => by simp at e, fun _ _ p hp => ?_⟩⟩
    simp [empty] at hp
  next front rest pending =>
    split
    next due =>
      refine ⟨h, ⟨fun _ _ => ⟨off, front, rest, pending, due⟩, fun _ e => by simp [loop] at e⟩⟩
    next late =>
      refine ⟨h.congr rfl rfl rfl rfl rfl rfl rfl, ⟨fun _ e => by simp at e, fun _ _ => ?_⟩⟩
      exact h.none_due pending (by omega)

theorem again_totalTicks {idle : Bool} : (s.again idle).totalTicks = s.totalTicks := by
  unfold again
  split
  · rfl
  · split <;> rfl

theorem fire_kept {idle : Bool} {calls : List DeviceCall} (h : s.Kept)
    (loop : s.checking = .firing idle) (inRange : InRange (.fire calls) s)
    (run : s.fire idle calls = .ok s') : s'.Kept ∧ s'.totalTicks = s.totalTicks := by
  obtain ⟨off, front, rest, pending, due⟩ := h.placed.firing idle loop
  simp only [fire, pending, removeFront] at run
  obtain ⟨mid, responds, ends⟩ := Exec.bind_eq_ok.mp run
  cases ends
  have effect := callBack_responds (h.timely.pop pending due) off inRange responds
  exact ⟨again_kept effect.timely effect.level (effect.checking.trans loop),
    again_totalTicks.trans effect.totalTicks⟩

theorem checkIfDue_kept {advanceClock : Bool} (h : s.Timely)
    (run : s.checkIfDue advanceClock = .ok s') : s'.Kept ∧ s.totalTicks ≤ s'.totalTicks := by
  unfold checkIfDue at run
  obtain ⟨_, off, run⟩ := Exec.bind_eq_ok.mp run
  have off := check_eq_ok.mp off
  split at run
  next empty =>
    cases run
    exact ⟨⟨h.congr rfl rfl rfl rfl rfl rfl rfl,
      ⟨fun _ e => by simp at e, fun _ e => by simp at e⟩⟩, le_rfl⟩
  next front rest pending =>
    split at run
    next late =>
      split at run
      next advances =>
        cases run
        have near := h.near front (by simp [pending])
        have elapsed : int32 (front.when - s.totalTicks) = front.when - s.totalTicks :=
          int32_of_range (by have := h.start; omega) (by have := h.start; omega)
        have := h.start
        have := h.sum
        have := h.idleTicks
        have := h.systemTicks
        have := h.userTicks
        have idle : int32 (s.idleTicks + (front.when - s.totalTicks)) =
            s.idleTicks + (front.when - s.totalTicks) :=
          int32_of_range (by omega) (by omega)
        rw [elapsed, idle]
        refine ⟨⟨?_, ⟨fun _ _ => ⟨off, front, rest, pending, le_rfl⟩, fun _ e => by simp at e⟩⟩,
          by simp only; omega⟩
        have later : ∀ f ∈ s.fired, f.interrupt.when ≤ f.time ∧ f.time ≤ front.when := by
          intro f hf
          have := h.due f hf
          omega
        constructor
        case near => exact h.near
        case ordered => exact h.ordered
        case due => exact later
        case serials => exact h.serials
        all_goals simp only; omega
      next =>
        cases run
        exact ⟨⟨h.congr rfl rfl rfl rfl rfl rfl rfl,
          ⟨fun _ e => by simp at e, fun _ e => by simp at e⟩⟩, le_rfl⟩
    next due =>
      cases run
      refine ⟨⟨h.congr rfl rfl rfl rfl rfl rfl rfl,
        ⟨fun _ _ => ⟨off, front, rest, pending, by simp only; omega⟩, fun _ e => by simp at e⟩⟩,
        le_rfl⟩

/-- The clock, moved by a tick of either mode. -/
theorem Timely.advance (h : s.Timely) {system user : Int} (system_pos : 0 ≤ system)
    (user_pos : 0 ≤ user) (inRange : s.totalTicks + (system + user) < 2147483648) :
    Timely { s with
      totalTicks := s.totalTicks + (system + user)
      systemTicks := s.systemTicks + system
      userTicks := s.userTicks + user
      level := .off } := by
  have := h.start
  have := h.sum
  have := h.systemTicks
  have := h.userTicks
  have later : ∀ f ∈ s.fired,
      f.interrupt.when ≤ f.time ∧ f.time ≤ s.totalTicks + (system + user) := by
    intro f hf
    have := h.due f hf
    omega
  constructor
  case near => exact h.near
  case ordered => exact h.ordered
  case due => exact later
  case serials => exact h.serials
  case idleTicks => exact h.idleTicks
  all_goals simp only; omega

theorem oneTick_eq (h : s.Timely) (inRange : s.totalTicks + s.tick < 2147483648) :
    ∃ system user : Int, 0 ≤ system ∧ 0 ≤ user ∧ s.totalTicks + (system + user) < 2147483648 ∧
      s.oneTick = { s with
        totalTicks := s.totalTicks + (system + user)
        systemTicks := s.systemTicks + system
        userTicks := s.userTicks + user
        level := .off }.checkIfDue false := by
  have := h.start
  have := h.sum
  have := h.idleTicks
  have := h.systemTicks
  have := h.userTicks
  unfold oneTick
  unfold tick at inRange
  split
  next system =>
    rw [if_pos system] at inRange
    unfold SystemTick at *
    refine ⟨10, 0, by omega, le_rfl, by omega, ?_⟩
    rw [int32_of_range (by omega) (by omega), int32_of_range (by omega) (by omega), add_zero,
      add_zero]
  next user =>
    rw [if_neg user] at inRange
    unfold UserTick at *
    refine ⟨0, 1, le_rfl, by omega, by omega, ?_⟩
    rw [int32_of_range (by omega) (by omega), int32_of_range (by omega) (by omega), zero_add,
      add_zero]

theorem oneTick_kept (h : s.Timely) (inRange : s.totalTicks + s.tick < 2147483648)
    (run : s.oneTick = .ok s') : s'.Kept ∧ s.totalTicks ≤ s'.totalTicks := by
  obtain ⟨system, user, system_pos, user_pos, within, ticks⟩ := oneTick_eq h inRange
  have advanced := h.advance system_pos user_pos within
  rw [ticks] at run
  obtain ⟨kept, later⟩ := checkIfDue_kept advanced run
  refine ⟨kept, le_trans ?_ later⟩
  simp only
  omega

theorem setLevel_kept {now : IntStatus} (h : s.Timely) (outside : s.checking = .outside)
    (inRange : InRange (.setLevel now) s) (run : s.setLevel now = .ok s') :
    s'.Kept ∧ s.totalTicks ≤ s'.totalTicks := by
  unfold setLevel at run
  obtain ⟨_, -, run⟩ := Exec.bind_eq_ok.mp run
  split at run
  next rises =>
    exact oneTick_kept (s := { s with level := now }) (h.congr rfl rfl rfl rfl rfl rfl rfl)
      (inRange rises.1 rises.2) run
  next =>
    cases run
    exact ⟨⟨h.congr rfl rfl rfl rfl rfl rfl rfl, .outside outside⟩, le_rfl⟩

theorem afterCheck_kept {idle result : Bool} (h : s.Timely)
    (run : s.afterCheck idle result = .ok s') : s'.Kept ∧ s'.totalTicks = s.totalTicks := by
  unfold afterCheck at run
  split at run
  next =>
    split at run
    · cases run
      exact ⟨⟨h.congr rfl rfl rfl rfl rfl rfl rfl, .outside rfl⟩, rfl⟩
    · cases run
  next =>
    simp only at run
    split at run
    · cases run
      exact ⟨⟨h.congr rfl rfl rfl rfl rfl rfl rfl, .outside rfl⟩, rfl⟩
    · cases run
      exact ⟨⟨h.congr rfl rfl rfl rfl rfl rfl rfl, .outside rfl⟩, rfl⟩

theorem next_kept {e : InterruptEvent} (h : s.Kept) (inRange : InRange e s)
    (happens : s.next e = some s') : s'.Kept ∧ s.totalTicks ≤ s'.totalTicks := by
  cases e with
  | schedule toCall fromNow type =>
    obtain ⟨outside, run⟩ := Option.ite_none_right_eq_some.mp happens
    have run := Exec.toOption_eq_some.mp run
    have timely := h.timely.schedule inRange run
    obtain ⟨-, rfl⟩ := schedule_cases run
    exact ⟨⟨timely, .outside outside⟩, le_rfl⟩
  | setLevel now =>
    obtain ⟨outside, run⟩ := Option.ite_none_right_eq_some.mp happens
    exact setLevel_kept h.timely outside inRange (Exec.toOption_eq_some.mp run)
  | oneTick =>
    obtain ⟨-, run⟩ := Option.ite_none_right_eq_some.mp happens
    exact oneTick_kept h.timely inRange (Exec.toOption_eq_some.mp run)
  | idle =>
    obtain ⟨-, run⟩ := Option.ite_none_right_eq_some.mp happens
    exact checkIfDue_kept (s := { s with status := .idleMode })
      (h.timely.congr rfl rfl rfl rfl rfl rfl rfl) (Exec.toOption_eq_some.mp run)
  | setStatus status =>
    obtain ⟨outside, ⟨⟩⟩ := Option.ite_none_right_eq_some.mp happens
    exact ⟨⟨h.timely.congr rfl rfl rfl rfl rfl rfl rfl, .outside outside⟩, le_rfl⟩
  | fire calls =>
    simp only [next] at happens
    split at happens
    next idle loop =>
      obtain ⟨kept, same⟩ := fire_kept h loop inRange (Exec.toOption_eq_some.mp happens)
      exact ⟨kept, same.ge⟩
    next => cases happens
  | afterCheck =>
    simp only [next] at happens
    split at happens
    next =>
      obtain ⟨kept, same⟩ := afterCheck_kept h.timely (Exec.toOption_eq_some.mp happens)
      exact ⟨kept, same.ge⟩
    next => cases happens

theorem initial_kept : initial.Kept where
  timely := by constructor <;> simp [initial, history]
  placed := .outside rfl

theorem Kept.of_reachable (h : interruptMachine.ReachableUnder InRange s) : s.Kept := by
  refine h.invariant ?_ ?_
  · rintro _ rfl
    exact initial_kept
  · intro e s s' kept inRange happens
    exact (next_kept kept inRange happens).1

end Clock

/-- The order in which interrupts fire, and the accounting of the clock. -/
structure OnTime (s : Interrupt) : Prop where
  sorted : s.pending.Pairwise (fun x y => x.when ≤ y.when)
  /-- Handlers fire in the order of `when`, and of `Schedule` among equal ones. -/
  order : s.fired.Pairwise (fun x y => x.interrupt.when < y.interrupt.when ∨
    (x.interrupt.when = y.interrupt.when ∧ x.interrupt.serial < y.interrupt.serial))
  /-- `totalTicks` had reached `when` at the handler call. -/
  due : ∀ f ∈ s.fired, f.interrupt.when ≤ f.time
  /-- Each of the interrupts scheduled so far has fired once or is pending once. -/
  once : ((s.fired.map (·.interrupt) ++ s.pending).map (·.serial)).Perm (List.range s.scheduled)
  drained : ∀ idle, s.checking = .checked idle true → ∀ p ∈ s.pending, s.totalTicks < p.when
  sum : s.totalTicks = s.idleTicks + s.systemTicks + s.userTicks
  monotone : ∀ e s', InRange e s → s.next e = some s' → s.totalTicks ≤ s'.totalTicks

end Interrupt

/-- In every run in which the times stay below 2^31, for any handlers. -/
theorem interrupts_on_time (s : Interrupt)
    (reached : interruptMachine.ReachableUnder Interrupt.InRange s) : s.OnTime := by
  have kept := Interrupt.Kept.of_reachable reached
  have ordered := List.pairwise_append.mp kept.timely.ordered
  exact {
    sorted := ordered.2.1.imp fun before => by
      unfold Interrupt.Before at before
      omega
    order := List.pairwise_map.mp ordered.1
    due := fun f hf => (kept.timely.due f hf).1
    once := kept.timely.serials
    drained := kept.placed.checked
    sum := kept.timely.sum
    monotone := fun e s' inRange happens => (Interrupt.next_kept kept inRange happens).2 }

/-- Two interrupts at the same time, one handler scheduling a third one, which is
not fired in the same pass. -/
def rescheduling : List InterruptEvent :=
  [.schedule 1 10 .diskInt, .schedule 2 10 .timerInt, .setLevel .on,
    .fire [.schedule 1 5 .diskInt, .v], .fire [.yieldOnReturn]]

theorem interrupts_on_time_rescheduling :
    ∃ s, interruptMachine.runUnder Interrupt.InRange rescheduling .initial = some s ∧
      s.fired.map (·.interrupt.serial) = [0, 1] ∧ s.pending.map (·.when) = [15] ∧ s.OnTime := by
  have runs : (interruptMachine.runUnder Interrupt.InRange rescheduling .initial).map
      (fun s => (s.fired.map (·.interrupt.serial), s.pending.map (·.when))) =
        some ([0, 1], [15]) := by
    decide
  obtain ⟨s, hs, shown⟩ := Option.map_eq_some_iff.mp runs
  obtain ⟨fired, pending⟩ := Prod.mk.inj shown
  have start : interruptMachine.ReachableUnder Interrupt.InRange .initial := .init rfl
  exact ⟨s, hs, fired, pending, interrupts_on_time s (start.runUnder rescheduling hs)⟩

end NachOS
