import Mathlib.Data.List.Chain
import NachOS.Machine.Interrupt

/-!
# The timer and time slices (machine/timer.cc, threads/alarm.cc, threads/kernel.cc:99)

The alarm makes the timer when the kernel starts. Each time the timer interrupt fires, the
alarm asks for a context switch unless the machine is idle, and then the timer schedules its
next interrupt, a fixed or a random time ahead. The handlers of the other devices are
arbitrary, but only the timer schedules its own interrupt.

The first part is about any devices: a handler is called less than one tick of the kernel
after its time, since each advance of the clock is followed by a check for what is due.
-/
namespace NachOS
open NachOS.Lib NachOS.Library

namespace Interrupt

/-- What a handler's call puts on the list: the object, and the time. -/
def scheduled? (totalTicks : Int) : DeviceCall → Option (Nat × Int)
  | .schedule toCall fromNow _ => some (toCall, totalTicks + fromNow)
  | .v => none
  | .yieldOnReturn => none

/-- What the calls of a handler do to the list of pending interrupts. -/
structure Schedules (s : Interrupt) (calls : List DeviceCall) (s' : Interrupt) : Prop where
  pending : ∃ new : List PendingInterrupt, s'.pending.Perm (new ++ s.pending) ∧
    (new.map fun p => (p.callOnInterrupt, p.when)) = calls.filterMap (scheduled? s.totalTicks) ∧
    ∀ p ∈ new, s.totalTicks < p.when
  fired : s'.fired = s.fired
  inHandler : s'.inHandler = s.inHandler
  yieldOnReturn : s.yieldOnReturn = true → s'.yieldOnReturn = true

variable {s s' : Interrupt}

theorem call_schedules {c : DeviceCall} (h : s.Timely) (off : s.level = .off)
    (inRange : CallInRange s.totalTicks c) (run : s.call c = .ok s') : s.Schedules [c] s' := by
  cases c with
  | schedule toCall fromNow type =>
    obtain ⟨positive, -⟩ := schedule_cases run
    have done := h.schedule_positive toCall type positive inRange
    rw [call, done] at run
    cases run
    refine ⟨⟨[_], place_perm _ _, rfl, ?_⟩, rfl, rfl, id⟩
    intro p hp
    rw [List.mem_singleton.mp hp]
    change s.totalTicks < s.totalTicks + fromNow
    omega
  | v =>
    simp only [call, setLevel_off, Exec.ok_bind, off] at run
    cases run
    exact ⟨⟨[], .refl _, rfl, by simp⟩, rfl, rfl, id⟩
  | yieldOnReturn =>
    simp only [call, setYieldOnReturn, Exec.bind_eq_ok] at run
    obtain ⟨_, -, run⟩ := run
    cases run
    exact ⟨⟨[], .refl _, rfl, by simp⟩, rfl, rfl, fun _ => rfl⟩

theorem callBack_schedules {calls : List DeviceCall} (h : s.Timely) (off : s.level = .off)
    (inRange : ∀ c ∈ calls, CallInRange s.totalTicks c) (run : s.callBack calls = .ok s') :
    s.Schedules calls s' := by
  induction calls generalizing s with
  | nil =>
    cases run
    exact ⟨⟨[], .refl _, rfl, by simp⟩, rfl, rfl, id⟩
  | cons c calls ih =>
    obtain ⟨mid, first, rest⟩ := Exec.bind_eq_ok.mp run
    have within := inRange c List.mem_cons_self
    have one := call_responds h off within first
    obtain ⟨⟨new₁, perm₁, keys₁, future₁⟩, fired₁, inHandler₁, yields₁⟩ :=
      call_schedules h off within first
    obtain ⟨⟨new₂, perm₂, keys₂, future₂⟩, fired₂, inHandler₂, yields₂⟩ :=
      ih one.timely one.level
        (fun d mem => one.totalTicks ▸ inRange d (List.mem_cons_of_mem _ mem)) rest
    rw [one.totalTicks] at keys₂ future₂
    constructor
    · refine ⟨new₁ ++ new₂, ?_, ?_, ?_⟩
      · have inner := perm₁.append_left new₂
        rw [← List.append_assoc] at inner
        exact (perm₂.trans inner).trans (List.perm_append_comm.append_right _)
      · rw [List.map_append, keys₁, keys₂, ← List.filterMap_append]
        rfl
      · intro p hp
        exact (List.mem_append.mp hp).elim (future₁ p) (future₂ p)
    · exact fired₂.trans fired₁
    · exact inHandler₂.trans inHandler₁
    · exact fun yields => yields₂ (yields₁ yields)

/-- Outside of the loop of `CheckIfDue` nothing is due; inside, nothing is late by a tick of
the kernel. -/
structure Prompt (s : Interrupt) : Prop where
  fired : ∀ f ∈ s.fired, f.time < f.interrupt.when + SystemTick
  firing : ∀ idle, s.checking = .firing idle →
    s.inHandler = true ∧ ∀ p ∈ s.pending, s.totalTicks < p.when + SystemTick
  settled : (∀ idle, s.checking ≠ .firing idle) → ∀ p ∈ s.pending, s.totalTicks < p.when
  /-- `Idle` gives up only without a pending interrupt. -/
  idle : s.checking = .checked true false → s.pending = []

/-- A step that neither starts nor ends the loop, nor moves the clock. -/
theorem Prompt.still (h : s.Prompt) (fired : s'.fired = s.fired) (pending : s'.pending = s.pending)
    (totalTicks : s'.totalTicks = s.totalTicks) (before : ∀ idle, s.checking ≠ .firing idle)
    (after : s'.checking = .outside) : s'.Prompt := by
  constructor
  · rw [fired]
    exact h.fired
  · intro idle loop
    cases after.symm.trans loop
  · intro _
    rw [pending, totalTicks]
    exact h.settled before
  · intro gives
    cases after.symm.trans gives

/-- What a step leaves as it was when no handler runs. -/
structure Unfired (s s' : Interrupt) : Prop where
  pending : s'.pending = s.pending
  fired : s'.fired = s.fired
  yieldOnReturn : s'.yieldOnReturn = s.yieldOnReturn

theorem checkIfDue_unfired {advanceClock : Bool} (run : s.checkIfDue advanceClock = .ok s') :
    s.Unfired s' := by
  unfold checkIfDue at run
  obtain ⟨_, _, run⟩ := Exec.bind_eq_ok.mp run
  split at run
  next =>
    cases run
    exact ⟨rfl, rfl, rfl⟩
  next =>
    split at run
    next =>
      split at run
      next =>
        cases run
        exact ⟨rfl, rfl, rfl⟩
      next =>
        cases run
        exact ⟨rfl, rfl, rfl⟩
    next =>
      cases run
      exact ⟨rfl, rfl, rfl⟩

theorem oneTick_unfired (run : s.oneTick = .ok s') : s.Unfired s' := by
  unfold oneTick at run
  obtain ⟨pending, fired, yields⟩ := checkIfDue_unfired run
  split at pending
  next system =>
    rw [if_pos system] at fired yields
    exact ⟨pending, fired, yields⟩
  next user =>
    rw [if_neg user] at fired yields
    exact ⟨pending, fired, yields⟩

theorem setLevel_unfired {now : IntStatus} (run : s.setLevel now = .ok s') : s.Unfired s' := by
  unfold setLevel at run
  obtain ⟨_, -, run⟩ := Exec.bind_eq_ok.mp run
  split at run
  next =>
    obtain ⟨pending, fired, yields⟩ := oneTick_unfired run
    exact ⟨pending, fired, yields⟩
  next =>
    cases run
    exact ⟨rfl, rfl, rfl⟩

/-- The check, when the clock was at most a tick behind. -/
theorem checkIfDue_prompt {advanceClock : Bool} (h : s.Timely)
    (fired : ∀ f ∈ s.fired, f.time < f.interrupt.when + SystemTick)
    (near : ∀ p ∈ s.pending, s.totalTicks < p.when + SystemTick)
    (run : s.checkIfDue advanceClock = .ok s') : s'.Prompt := by
  unfold checkIfDue at run
  obtain ⟨_, off, run⟩ := Exec.bind_eq_ok.mp run
  split at run
  next empty =>
    cases run
    constructor
    · exact fired
    · intro idle loop
      cases loop
    · intro _ p hp
      rw [empty] at hp
      cases hp
    · intro _
      exact empty
  next front rest pending =>
    split at run
    next late =>
      split at run
      next =>
        cases run
        constructor
        · exact fired
        · intro idle _
          refine ⟨rfl, ?_⟩
          intro p hp
          have sorted := h.sorted
          rw [pending] at hp sorted
          have positive : 0 < SystemTick := by decide
          change front.when < p.when + SystemTick
          rcases List.mem_cons.mp hp with rfl | hp
          · omega
          · have := (List.pairwise_cons.mp sorted).1 p hp
            unfold Before at this
            omega
        · intro outside
          exact absurd rfl (outside true)
        · intro gives
          cases gives
      next =>
        cases run
        constructor
        · exact fired
        · intro idle loop
          cases loop
        · intro _
          exact h.none_due pending late
        · intro gives
          cases gives
    next =>
      cases run
      constructor
      · exact fired
      · intro idle _
        exact ⟨rfl, near⟩
      · intro outside
        exact absurd rfl (outside advanceClock)
      · intro gives
        cases gives

/-- The ticks of either mode are at most those of the kernel. -/
theorem oneTick_near (h : s.Timely) (inRange : s.totalTicks + s.tick < 2147483648) :
    ∃ ticked : Interrupt, ticked.Timely ∧ ticked.pending = s.pending ∧ ticked.fired = s.fired ∧
      ticked.totalTicks ≤ s.totalTicks + SystemTick ∧ s.oneTick = ticked.checkIfDue false := by
  have := h.start
  have := h.sum
  have := h.idleTicks
  have := h.systemTicks
  have := h.userTicks
  unfold tick at inRange
  unfold SystemTick UserTick at *
  by_cases system : s.status = .systemMode
  · rw [if_pos system] at inRange
    have ticked := h.advance (by omega : (0 : Int) ≤ 10) (le_refl (0 : Int)) (by omega)
    refine ⟨_, ticked, rfl, rfl, by simp, ?_⟩
    simp only [oneTick, if_pos system, SystemTick, add_zero]
    rw [int32_of_range (by omega) (by omega), int32_of_range (by omega) (by omega)]
  · rw [if_neg system] at inRange
    have ticked := h.advance (le_refl (0 : Int)) (by omega : (0 : Int) ≤ 1) (by omega)
    refine ⟨_, ticked, rfl, rfl, by simp, ?_⟩
    simp only [oneTick, if_neg system, UserTick, zero_add, add_zero]
    rw [int32_of_range (by omega) (by omega), int32_of_range (by omega) (by omega)]

theorem oneTick_prompt (h : s.Timely) (prompt : s.Prompt)
    (outside : ∀ idle, s.checking ≠ .firing idle)
    (inRange : s.totalTicks + s.tick < 2147483648) (run : s.oneTick = .ok s') : s'.Prompt := by
  obtain ⟨ticked, timely, pending, fired, near, ticks⟩ := oneTick_near h inRange
  rw [ticks] at run
  refine checkIfDue_prompt timely (fired ▸ prompt.fired) ?_ run
  intro p hp
  have later := prompt.settled outside p (pending ▸ hp)
  omega

theorem setLevel_prompt {now : IntStatus} (h : s.Timely) (prompt : s.Prompt)
    (outside : s.checking = .outside) (inRange : InRange (.setLevel now) s)
    (run : s.setLevel now = .ok s') : s'.Prompt := by
  unfold setLevel at run
  obtain ⟨_, -, run⟩ := Exec.bind_eq_ok.mp run
  have before : ∀ idle, s.checking ≠ .firing idle := by simp [outside]
  have timely : Timely { s with level := now } := h.congr rfl rfl rfl rfl rfl rfl rfl
  have raised : Prompt { s with level := now } := prompt.still rfl rfl rfl before outside
  split at run
  next rises => exact oneTick_prompt timely raised before (inRange rises.1 rises.2) run
  next =>
    cases run
    exact raised

theorem again_prompt {idle : Bool} (h : s.Timely) (loop : s.checking = .firing idle)
    (inHandler : s.inHandler = true)
    (fired : ∀ f ∈ s.fired, f.time < f.interrupt.when + SystemTick)
    (near : ∀ p ∈ s.pending, s.totalTicks < p.when + SystemTick) : (s.again idle).Prompt := by
  unfold again
  split
  next empty =>
    constructor
    · exact fired
    · intro _ loop
      cases loop
    · intro _ p hp
      rw [empty] at hp
      cases hp
    · intro gives
      cases gives
  next front rest pending =>
    split
    next =>
      constructor
      · exact fired
      · intro _ _
        exact ⟨inHandler, near⟩
      · intro outside
        exact absurd loop (outside idle)
      · intro gives
        cases loop.symm.trans gives
    next late =>
      constructor
      · exact fired
      · intro _ loop
        cases loop
      · intro _
        exact h.none_due pending (by omega)
      · intro gives
        cases gives

theorem again_unfired (s : Interrupt) (idle : Bool) : s.Unfired (s.again idle) := by
  unfold again
  split
  next => exact ⟨rfl, rfl, rfl⟩
  next =>
    split
    next => exact ⟨rfl, rfl, rfl⟩
    next => exact ⟨rfl, rfl, rfl⟩

/-- The front interrupt leaves the list, and its handler's calls are made. -/
theorem fire_cases {idle : Bool} {calls : List DeviceCall} (h : s.Kept)
    (loop : s.checking = .firing idle) (inRange : InRange (.fire calls) s)
    (run : s.fire idle calls = .ok s') :
    ∃ front rest mid, s.pending = front :: rest ∧ front.when ≤ s.totalTicks ∧
      Schedules { s with pending := rest, fired := s.fired ++ [⟨front, s.totalTicks⟩] } calls mid ∧
      Responds { s with pending := rest, fired := s.fired ++ [⟨front, s.totalTicks⟩] } mid ∧
      s' = mid.again idle := by
  obtain ⟨off, front, rest, pending, due⟩ := h.placed.firing idle loop
  simp only [fire, pending, removeFront] at run
  obtain ⟨mid, responds, ends⟩ := Exec.bind_eq_ok.mp run
  cases ends
  have popped := h.timely.pop pending due
  exact ⟨front, rest, mid, pending, due, callBack_schedules popped off inRange responds,
    callBack_responds popped off inRange responds, rfl⟩

/-- The interrupt that fires was not late, and its handler schedules for the future. -/
theorem fire_prompt {idle : Bool} {calls : List DeviceCall} (h : s.Kept) (prompt : s.Prompt)
    (loop : s.checking = .firing idle) (inRange : InRange (.fire calls) s)
    (run : s.fire idle calls = .ok s') : s'.Prompt := by
  obtain ⟨front, rest, mid, pending, -, schedules, effect, rfl⟩ := fire_cases h loop inRange run
  obtain ⟨inHandler, near⟩ := prompt.firing idle loop
  obtain ⟨⟨new, perm, -, future⟩, fired, handler, -⟩ := schedules
  apply again_prompt effect.timely (effect.checking.trans loop) (handler.trans inHandler)
  · intro f hf
    rw [fired] at hf
    rcases List.mem_append.mp hf with hf | hf
    · exact prompt.fired f hf
    · rw [List.mem_singleton.mp hf]
      exact near front (pending ▸ List.mem_cons_self)
  · intro p hp
    rw [effect.totalTicks]
    have positive : 0 < SystemTick := by decide
    rcases List.mem_append.mp (perm.mem_iff.mp hp) with hp | hp
    · have := future p hp
      simp only at this ⊢
      omega
    · exact near p (pending ▸ List.mem_cons_of_mem _ hp)

theorem afterCheck_frame {idle result : Bool} (run : s.afterCheck idle result = .ok s') :
    s'.pending = s.pending ∧ s'.fired = s.fired ∧ s'.totalTicks = s.totalTicks ∧
      s'.checking = .outside := by
  unfold afterCheck at run
  split at run
  next =>
    split at run
    next =>
      cases run
      exact ⟨rfl, rfl, rfl, rfl⟩
    next => cases run
  next =>
    simp only at run
    split at run
    next =>
      cases run
      exact ⟨rfl, rfl, rfl, rfl⟩
    next =>
      cases run
      exact ⟨rfl, rfl, rfl, rfl⟩

theorem next_prompt {e : InterruptEvent} (h : s.Kept) (prompt : s.Prompt) (inRange : InRange e s)
    (happens : s.next e = some s') : s'.Prompt := by
  cases e with
  | schedule toCall fromNow type =>
    obtain ⟨outside, run⟩ := Option.ite_none_right_eq_some.mp happens
    have run := Exec.toOption_eq_some.mp run
    obtain ⟨positive, -⟩ := schedule_cases run
    rw [h.timely.schedule_positive toCall type positive inRange] at run
    cases run
    constructor
    · exact prompt.fired
    · intro idle loop
      cases outside.symm.trans loop
    · intro _ p hp
      rcases List.mem_cons.mp ((place_perm _ _).mem_iff.mp hp) with rfl | hp
      · simp only
        omega
      · exact prompt.settled (by simp [outside]) p hp
    · intro gives
      cases outside.symm.trans gives
  | setLevel now =>
    obtain ⟨outside, run⟩ := Option.ite_none_right_eq_some.mp happens
    exact setLevel_prompt h.timely prompt outside inRange (Exec.toOption_eq_some.mp run)
  | oneTick =>
    obtain ⟨outside, run⟩ := Option.ite_none_right_eq_some.mp happens
    exact oneTick_prompt h.timely prompt (by simp [outside]) inRange
      (Exec.toOption_eq_some.mp run)
  | idle =>
    obtain ⟨outside, run⟩ := Option.ite_none_right_eq_some.mp happens
    have timely : Timely { s with status := .idleMode } :=
      h.timely.congr rfl rfl rfl rfl rfl rfl rfl
    apply checkIfDue_prompt timely prompt.fired ?_ (Exec.toOption_eq_some.mp run)
    intro p hp
    have positive : 0 < SystemTick := by decide
    have later := prompt.settled (by simp [outside]) p hp
    simp only
    omega
  | setStatus status =>
    obtain ⟨outside, ⟨⟩⟩ := Option.ite_none_right_eq_some.mp happens
    exact prompt.still rfl rfl rfl (by simp [outside]) outside
  | fire calls =>
    simp only [next] at happens
    split at happens
    next idle loop =>
      exact fire_prompt h prompt loop inRange (Exec.toOption_eq_some.mp happens)
    next => cases happens
  | afterCheck =>
    simp only [next] at happens
    split at happens
    next checked =>
      obtain ⟨pending, fired, totalTicks, after⟩ :=
        afterCheck_frame (Exec.toOption_eq_some.mp happens)
      exact prompt.still fired pending totalTicks (by simp [checked]) after
    next => cases happens

/-- A request to yield stands until `OneTick` or `Idle` returns. -/
theorem next_yields {e : InterruptEvent} (h : s.Kept) (inRange : InRange e s)
    (happens : s.next e = some s') (inside : e ≠ .afterCheck) (yields : s.yieldOnReturn = true) :
    s'.yieldOnReturn = true := by
  cases e with
  | schedule toCall fromNow type =>
    obtain ⟨-, run⟩ := Option.ite_none_right_eq_some.mp happens
    obtain ⟨-, rfl⟩ := schedule_cases (Exec.toOption_eq_some.mp run)
    exact yields
  | setLevel now =>
    obtain ⟨-, run⟩ := Option.ite_none_right_eq_some.mp happens
    exact (setLevel_unfired (Exec.toOption_eq_some.mp run)).yieldOnReturn.trans yields
  | oneTick =>
    obtain ⟨-, run⟩ := Option.ite_none_right_eq_some.mp happens
    exact (oneTick_unfired (Exec.toOption_eq_some.mp run)).yieldOnReturn.trans yields
  | idle =>
    obtain ⟨-, run⟩ := Option.ite_none_right_eq_some.mp happens
    exact (checkIfDue_unfired (Exec.toOption_eq_some.mp run)).yieldOnReturn.trans yields
  | setStatus status =>
    obtain ⟨-, ⟨⟩⟩ := Option.ite_none_right_eq_some.mp happens
    exact yields
  | fire calls =>
    simp only [next] at happens
    split at happens
    next idle loop =>
      obtain ⟨_, _, mid, -, -, schedules, -, rfl⟩ :=
        fire_cases h loop inRange (Exec.toOption_eq_some.mp happens)
      exact (again_unfired _ _).yieldOnReturn.trans (schedules.yieldOnReturn yields)
    next => cases happens
  | afterCheck => exact absurd rfl inside

end Interrupt

/-- The average time between timer interrupts (machine/stats.h). -/
def TimerTicks : Int := 100

/-- `object` is the timer itself, the object that its interrupts call. -/
structure Timer where
  object : Nat
  randomize : Bool
  disable : Bool
  deriving DecidableEq

namespace Timer

/-- The delay in `Timer::SetInterrupt`, when `RandomNumber` returns `random`. -/
def delay (t : Timer) (random : Nat) : Int :=
  if t.randomize then 1 + (random : Int) % (TimerTicks * 2) else TimerTicks

/-- `Timer::SetInterrupt`. -/
def setInterrupt (t : Timer) (random : Nat) : List DeviceCall :=
  if t.disable then [] else [.schedule t.object (t.delay random) .timerInt]

/-- `Alarm::CallBack`. -/
def alarmCallBack (status : MachineStatus) : List DeviceCall :=
  if status ≠ .idleMode then [.yieldOnReturn] else []

/-- `Timer::CallBack`. -/
def callBack (t : Timer) (status : MachineStatus) (random : Nat) : List DeviceCall :=
  alarmCallBack status ++ t.setInterrupt random

/-- The bounds of the delay. -/
def shortest (t : Timer) : Int := if t.randomize then 1 else TimerTicks

def longest (t : Timer) : Int := if t.randomize then TimerTicks * 2 else TimerTicks

theorem delay_range (t : Timer) (random : Nat) :
    t.shortest ≤ t.delay random ∧ t.delay random ≤ t.longest := by
  unfold shortest longest delay TimerTicks
  cases t.randomize
  · simp
  · simp only [if_true]
    omega

theorem shortest_pos (t : Timer) : 0 < t.shortest := by
  unfold shortest TimerTicks
  cases t.randomize <;> simp

end Timer

/-- The interrupt simulation with the timer of the alarm. -/
structure Sliced where
  interrupt : Interrupt
  timer : Timer
  deriving DecidableEq

inductive AlarmEvent where
  /-- An event in which no interrupt of the timer fires. -/
  | device (e : InterruptEvent)
  /-- The timer interrupt at the front fires. -/
  | timer (random : Nat)
  | disable
  deriving DecidableEq

namespace Sliced

/-- The timer's interrupts, pending. -/
def mine (t : Sliced) : List PendingInterrupt :=
  t.interrupt.pending.filter (·.callOnInterrupt = t.timer.object)

/-- When the time slices began: at the start, and with each call of the timer. -/
def slices (t : Sliced) : List Int :=
  0 :: (t.interrupt.fired.filter (·.interrupt.callOnInterrupt = t.timer.object)).map (·.time)

def lastSlice (t : Sliced) : Int :=
  t.slices.getLast (List.cons_ne_nil _ _)

/-- The timer's interrupt is the next one. -/
def AtTimer (t : Sliced) : Prop :=
  (t.interrupt.pending.head?.map (·.callOnInterrupt)) = some t.timer.object

instance (t : Sliced) : Decidable t.AtTimer :=
  inferInstanceAs (Decidable (_ = _))

/-- No other device schedules an interrupt for the timer. -/
def Foreign (t : Sliced) : DeviceCall → Prop
  | .schedule toCall _ _ => toCall ≠ t.timer.object
  | .v => True
  | .yieldOnReturn => True

instance (t : Sliced) : DecidablePred t.Foreign
  | .schedule toCall _ _ => inferInstanceAs (Decidable (toCall ≠ t.timer.object))
  | .v => inferInstanceAs (Decidable True)
  | .yieldOnReturn => inferInstanceAs (Decidable True)

def Elsewhere (t : Sliced) : InterruptEvent → Prop
  | .schedule toCall _ _ => toCall ≠ t.timer.object
  | .fire calls => ¬ t.AtTimer ∧ ∀ c ∈ calls, t.Foreign c
  | .setLevel _ => True
  | .oneTick => True
  | .idle => True
  | .setStatus _ => True
  | .afterCheck => True

instance (t : Sliced) : DecidablePred t.Elsewhere
  | .schedule toCall _ _ => inferInstanceAs (Decidable (toCall ≠ t.timer.object))
  | .fire calls => inferInstanceAs (Decidable (¬ t.AtTimer ∧ ∀ c ∈ calls, t.Foreign c))
  | .setLevel _ => inferInstanceAs (Decidable True)
  | .oneTick => inferInstanceAs (Decidable True)
  | .idle => inferInstanceAs (Decidable True)
  | .setStatus _ => inferInstanceAs (Decidable True)
  | .afterCheck => inferInstanceAs (Decidable True)

/-- What the timer's handler calls, in the present state. -/
def timerCalls (t : Sliced) (random : Nat) : List DeviceCall :=
  t.timer.callBack t.interrupt.status random

def next : AlarmEvent → Sliced → Option Sliced
  | .device e, t =>
    if t.Elsewhere e then (t.interrupt.next e).map fun interrupt => { t with interrupt } else none
  | .timer random, t =>
    if t.AtTimer then
      (t.interrupt.next (.fire (t.timerCalls random))).map fun interrupt => { t with interrupt }
    else none
  | .disable, t => some { t with timer := { t.timer with disable := true } }

/-- The constructor of `Alarm`, in `Kernel::Initialize`, and with it that of `Timer`. -/
def Boots (t : Sliced) : Prop :=
  t.timer.disable = false ∧
    ∃ random, Interrupt.initial.callBack (t.timer.setInterrupt random) = .ok t.interrupt

/-- The times that the event computes stay below 2^31. -/
def InRange : AlarmEvent → Sliced → Prop
  | .device e, t => Interrupt.InRange e t.interrupt
  | .timer random, t => Interrupt.InRange (.fire (t.timerCalls random)) t.interrupt
  | .disable, _ => True

instance : ∀ e t, Decidable (InRange e t)
  | .device e, t => inferInstanceAs (Decidable (Interrupt.InRange e t.interrupt))
  | .timer random, t =>
    inferInstanceAs (Decidable (Interrupt.InRange (.fire (t.timerCalls random)) t.interrupt))
  | .disable, _ => inferInstanceAs (Decidable True)

end Sliced

/-- The interrupt simulation with an alarm, under any use by the other devices. -/
def alarmMachine : Machine Sliced AlarmEvent where
  init := Sliced.Boots
  next := Sliced.next

namespace Sliced
open Interrupt

/-- A slice lasts for a delay of the timer, and for less than a tick of the kernel more. -/
def Gap (timer : Timer) (start stop : Int) : Prop :=
  start + timer.shortest ≤ stop ∧ stop < start + timer.longest + SystemTick

/-- What is known of the timer between any two events. -/
structure Slicing (t : Sliced) : Prop where
  kept : t.interrupt.Kept
  prompt : t.interrupt.Prompt
  atMost : t.mine.length ≤ 1
  armed : t.timer.disable = false → t.mine ≠ []
  ahead : ∀ p ∈ t.mine,
    t.lastSlice + t.timer.shortest ≤ p.when ∧ p.when ≤ t.lastSlice + t.timer.longest
  slices : t.slices.IsChain (Gap t.timer)
  passed : t.lastSlice ≤ t.interrupt.totalTicks

/-- What an event does that is none of the timer's. -/
structure Bystander (t t' : Sliced) : Prop where
  timer : t'.timer = t.timer
  mine : t'.mine.Perm t.mine
  slices : t'.slices = t.slices

variable {t t' : Sliced}

theorem bystander_unfired {s' : Interrupt} (unfired : t.interrupt.Unfired s') :
    t.Bystander { t with interrupt := s' } := by
  constructor
  · rfl
  · unfold mine
    rw [unfired.pending]
  · unfold slices
    rw [unfired.fired]

/-- The interrupts that the calls of another handler schedule are not the timer's. -/
theorem foreign_new {s : Interrupt} {calls : List DeviceCall} {new : List PendingInterrupt}
    (foreign : ∀ c ∈ calls, t.Foreign c)
    (keys : (new.map fun p => (p.callOnInterrupt, p.when)) =
      calls.filterMap (scheduled? s.totalTicks)) :
    new.filter (·.callOnInterrupt = t.timer.object) = [] := by
  rw [List.filter_eq_nil_iff]
  intro p hp
  have key := List.mem_map_of_mem (f := fun p => (p.callOnInterrupt, p.when)) hp
  rw [keys] at key
  obtain ⟨c, listed, eq⟩ := List.mem_filterMap.mp key
  have other := foreign c listed
  cases c with
  | schedule toCall fromNow type =>
    have called : toCall = p.callOnInterrupt := congrArg Prod.fst (Option.some.inj eq)
    rw [← called]
    simpa [Foreign] using other
  | v => cases eq
  | yieldOnReturn => cases eq

theorem fire_bystander {idle : Bool} {calls : List DeviceCall} {s' : Interrupt}
    (h : t.interrupt.Kept) (loop : t.interrupt.checking = .firing idle)
    (inRange : Interrupt.InRange (.fire calls) t.interrupt) (elsewhere : t.Elsewhere (.fire calls))
    (run : t.interrupt.fire idle calls = .ok s') : t.Bystander { t with interrupt := s' } := by
  obtain ⟨front, rest, mid, pending, -, schedules, -, rfl⟩ := fire_cases h loop inRange run
  obtain ⟨⟨new, perm, keys, -⟩, fired, -, -⟩ := schedules
  obtain ⟨notFront, foreign⟩ := elsewhere
  have other : ¬ front.callOnInterrupt = t.timer.object := by
    intro same
    apply notFront
    simp [AtTimer, pending, same]
  obtain ⟨pending', fired', -⟩ := again_unfired mid idle
  constructor
  · rfl
  · unfold mine
    have filtered := perm.filter (·.callOnInterrupt = t.timer.object)
    rw [List.filter_append, foreign_new foreign keys, List.nil_append] at filtered
    simpa [pending', pending, other] using filtered
  · unfold slices
    simp [fired', fired, other]

theorem device_bystander {e : InterruptEvent} {s' : Interrupt} (h : t.interrupt.Kept)
    (inRange : Interrupt.InRange e t.interrupt) (elsewhere : t.Elsewhere e)
    (happens : t.interrupt.next e = some s') : t.Bystander { t with interrupt := s' } := by
  cases e with
  | schedule toCall fromNow type =>
    obtain ⟨outside, run⟩ := Option.ite_none_right_eq_some.mp happens
    obtain ⟨-, rfl⟩ := schedule_cases (Exec.toOption_eq_some.mp run)
    constructor
    · rfl
    · unfold mine
      generalize made : PendingInterrupt.mk toCall (int32 (t.interrupt.totalTicks + fromNow)) type
        t.interrupt.scheduled = x
      have other : ¬ x.callOnInterrupt = t.timer.object := by
        rw [← made]
        exact elsewhere
      have placed : (place PendingCompare x t.interrupt.pending).Perm (x :: t.interrupt.pending) :=
        place_perm x t.interrupt.pending
      have filtered := placed.filter (·.callOnInterrupt = t.timer.object)
      rwa [List.filter_cons_of_neg (by simpa using other)] at filtered
    · rfl
  | setLevel now =>
    obtain ⟨-, run⟩ := Option.ite_none_right_eq_some.mp happens
    exact bystander_unfired (setLevel_unfired (Exec.toOption_eq_some.mp run))
  | oneTick =>
    obtain ⟨-, run⟩ := Option.ite_none_right_eq_some.mp happens
    exact bystander_unfired (oneTick_unfired (Exec.toOption_eq_some.mp run))
  | idle =>
    obtain ⟨-, run⟩ := Option.ite_none_right_eq_some.mp happens
    obtain ⟨pending, fired, yields⟩ := checkIfDue_unfired (Exec.toOption_eq_some.mp run)
    exact bystander_unfired ⟨pending, fired, yields⟩
  | setStatus status =>
    obtain ⟨-, ⟨⟩⟩ := Option.ite_none_right_eq_some.mp happens
    exact bystander_unfired ⟨rfl, rfl, rfl⟩
  | fire calls =>
    simp only [Interrupt.next] at happens
    split at happens
    next idle loop =>
      exact fire_bystander h loop inRange elsewhere (Exec.toOption_eq_some.mp happens)
    next => cases happens
  | afterCheck =>
    simp only [Interrupt.next] at happens
    split at happens
    next =>
      obtain ⟨pending, fired, -⟩ := afterCheck_frame (Exec.toOption_eq_some.mp happens)
      constructor
      · rfl
      · simp only [mine, pending, List.Perm.refl]
      · simp only [slices, fired]
    next => cases happens

theorem Bystander.lastSlice (h : t.Bystander t') : t'.lastSlice = t.lastSlice := by
  unfold Sliced.lastSlice
  simp only [h.slices]

/-- An event that is none of the timer's. -/
theorem Slicing.bystander (h : t.Slicing) (by' : t.Bystander t') (kept : t'.interrupt.Kept)
    (prompt : t'.interrupt.Prompt) (later : t.interrupt.totalTicks ≤ t'.interrupt.totalTicks) :
    t'.Slicing := by
  have last := by'.lastSlice
  obtain ⟨timer, mine, slices⟩ := by'
  constructor
  · exact kept
  · exact prompt
  · rw [mine.length_eq]
    exact h.atMost
  · intro enabled none
    rw [none] at mine
    exact h.armed (timer ▸ enabled) mine.symm.eq_nil
  · rw [last, timer]
    intro p hp
    exact h.ahead p (mine.mem_iff.mp hp)
  · rw [slices, timer]
    exact h.slices
  · rw [last]
    exact h.passed.trans later

theorem callBack_append {s : Interrupt} (first second : List DeviceCall) :
    s.callBack (first ++ second) = s.callBack first >>= fun s => s.callBack second := by
  induction first generalizing s with
  | nil => rfl
  | cons c first ih =>
    simp only [List.cons_append, callBack]
    cases s.call c with
    | error e => rfl
    | ok s => exact ih

theorem callBack_alarm {s : Interrupt} (status : MachineStatus) (inHandler : s.inHandler = true) :
    s.callBack (Timer.alarmCallBack status) =
      .ok { s with yieldOnReturn := s.yieldOnReturn || decide (status ≠ .idleMode) } := by
  unfold Timer.alarmCallBack
  split
  next active =>
    have yields : decide (status ≠ .idleMode) = true := by simpa using active
    simp only [callBack, call, setYieldOnReturn, check_true inHandler, Exec.ok_bind, yields,
      Bool.or_true]
  next idle => simp [callBack, idle]

theorem callBack_setInterrupt {s : Interrupt} {random : Nat} {timer : Timer} (h : s.Timely)
    (inRange : ∀ c ∈ timer.setInterrupt random, CallInRange s.totalTicks c) :
    ∃ s', s.callBack (timer.setInterrupt random) = .ok s' ∧
      s'.yieldOnReturn = s.yieldOnReturn := by
  unfold Timer.setInterrupt at *
  split
  next => exact ⟨s, rfl, rfl⟩
  next enabled =>
    rw [if_neg enabled] at inRange
    have positive : 0 < timer.delay random := by
      have := timer.shortest_pos
      have := (timer.delay_range random).1
      omega
    have within : s.totalTicks + timer.delay random < 2147483648 :=
      inRange _ (List.mem_singleton.mpr rfl)
    have scheduled := h.schedule_positive timer.object .timerInt positive within
    simp only [callBack, call, scheduled, Exec.ok_bind]
    exact ⟨_, rfl, rfl⟩

/-- No assertion fails in the timer's handler. -/
theorem callBack_timer {s : Interrupt} {random : Nat} {timer : Timer} {status : MachineStatus}
    (h : s.Timely) (inHandler : s.inHandler = true)
    (inRange : ∀ c ∈ timer.callBack status random, CallInRange s.totalTicks c) :
    ∃ s', s.callBack (timer.callBack status random) = .ok s' ∧
      (status ≠ .idleMode → s'.yieldOnReturn = true) := by
  have alarmed : Timely { s with
      yieldOnReturn := s.yieldOnReturn || decide (status ≠ .idleMode) } :=
    h.congr rfl rfl rfl rfl rfl rfl rfl
  obtain ⟨s', run, yields⟩ := callBack_setInterrupt alarmed
    (fun c listed => inRange c (List.mem_append_right _ listed))
  refine ⟨s', ?_, ?_⟩
  · rw [Timer.callBack, callBack_append, callBack_alarm status inHandler, Exec.ok_bind]
    exact run
  · intro active
    rw [yields]
    simp [active]

theorem setInterrupt_scheduled (timer : Timer) (random : Nat) (now : Int) :
    (timer.setInterrupt random).filterMap (scheduled? now) =
      if timer.disable then [] else [(timer.object, now + timer.delay random)] := by
  unfold Timer.setInterrupt
  split <;> simp [scheduled?]

theorem callBack_scheduled (timer : Timer) (status : MachineStatus) (random : Nat) (now : Int) :
    (timer.callBack status random).filterMap (scheduled? now) =
      if timer.disable then [] else [(timer.object, now + timer.delay random)] := by
  have alarm : (Timer.alarmCallBack status).filterMap (scheduled? now) = [] := by
    unfold Timer.alarmCallBack
    split <;> simp [scheduled?]
  rw [Timer.callBack, List.filterMap_append, alarm, setInterrupt_scheduled, List.nil_append]

/-- The interrupt that the timer schedules is the only one of its own. -/
theorem timer_new {new others : List PendingInterrupt} {s' : Interrupt} {now : Int} {random : Nat}
    (perm : s'.pending.Perm (new ++ others))
    (none : others.filter (·.callOnInterrupt = t.timer.object) = [])
    (keys : (new.map fun p => (p.callOnInterrupt, p.when)) =
      if t.timer.disable then [] else [(t.timer.object, now + t.timer.delay random)]) :
    (Sliced.mine { t with interrupt := s' }).map (·.when) =
      if t.timer.disable then [] else [now + t.timer.delay random] := by
  have filtered := perm.filter (·.callOnInterrupt = t.timer.object)
  rw [List.filter_append, none, List.append_nil] at filtered
  unfold mine
  split at keys
  next disabled =>
    rw [List.map_eq_nil_iff.mp keys] at filtered
    rw [filtered.eq_nil, if_pos disabled]
    rfl
  next enabled =>
    obtain ⟨p, rfl, key⟩ := List.map_eq_singleton_iff.mp keys
    obtain ⟨own, when⟩ := Prod.mk.inj key
    rw [List.filter_cons_of_pos (by simpa using own), List.filter_nil] at filtered
    rw [filtered.eq_singleton, if_neg enabled]
    simp [when]

/-- The timer's interrupt fires: the next slice begins, and the next interrupt is scheduled. -/
theorem timer_cases {random : Nat} {idle : Bool} {s' : Interrupt} (h : t.Slicing)
    (atTimer : t.AtTimer) (loop : t.interrupt.checking = .firing idle)
    (inRange : Interrupt.InRange (.fire (t.timerCalls random)) t.interrupt)
    (run : t.interrupt.fire idle (t.timerCalls random) = .ok s') :
    ∃ front, t.mine = [front] ∧ front.when ≤ t.interrupt.totalTicks ∧
      s'.totalTicks = t.interrupt.totalTicks ∧
      Sliced.slices { t with interrupt := s' } = t.slices ++ [t.interrupt.totalTicks] ∧
      (Sliced.mine { t with interrupt := s' }).map (·.when) =
        if t.timer.disable then [] else [t.interrupt.totalTicks + t.timer.delay random] := by
  obtain ⟨front, rest, mid, pending, due, schedules, effect, rfl⟩ :=
    fire_cases h.kept loop inRange run
  obtain ⟨⟨new, perm, keys, -⟩, fired, -, -⟩ := schedules
  obtain ⟨pending', fired', -⟩ := again_unfired mid idle
  have own : front.callOnInterrupt = t.timer.object := by simpa [AtTimer, pending] using atTimer
  have mine_eq : t.mine = front :: rest.filter (·.callOnInterrupt = t.timer.object) := by
    simp [mine, pending, own]
  have others : rest.filter (·.callOnInterrupt = t.timer.object) = [] := by
    have atMost := h.atMost
    rw [mine_eq, List.length_cons] at atMost
    exact List.length_eq_zero_iff.mp (by omega)
  refine ⟨front, by rw [mine_eq, others], due, ?_, ?_, ?_⟩
  · exact again_totalTicks.trans effect.totalTicks
  · unfold slices
    simp [fired', fired, own]
  · rw [timerCalls, callBack_scheduled] at keys
    exact timer_new (pending' ▸ perm) others keys

/-- The timer has just scheduled its next interrupt. -/
theorem Slicing.renewed (random : Nat) (kept : t.interrupt.Kept) (prompt : t.interrupt.Prompt)
    (last : t.lastSlice = t.interrupt.totalTicks) (slices : t.slices.IsChain (Gap t.timer))
    (mine : t.mine.map (·.when) =
      if t.timer.disable then [] else [t.interrupt.totalTicks + t.timer.delay random]) :
    t.Slicing := by
  constructor
  · exact kept
  · exact prompt
  · have length := congrArg List.length mine
    rw [List.length_map] at length
    rw [length]
    split <;> simp
  · intro enabled none
    simp [none, enabled] at mine
  · intro p hp
    have timed : p.when ∈ t.mine.map (·.when) := List.mem_map_of_mem hp
    rw [mine] at timed
    split at timed
    next => cases timed
    next =>
      have range := t.timer.delay_range random
      rw [List.mem_singleton.mp timed, last]
      omega
  · exact slices
  · exact last.le

theorem boots_slicing (h : t.Boots) : t.Slicing := by
  obtain ⟨enabled, random, run⟩ := h
  have timely := initial_kept.timely
  have inRange : ∀ c ∈ t.timer.setInterrupt random, CallInRange Interrupt.initial.totalTicks c := by
    intro c listed
    unfold Timer.setInterrupt at listed
    rw [if_neg (by simp [enabled]), List.mem_singleton] at listed
    subst listed
    have short : t.timer.longest ≤ 200 := by
      unfold Timer.longest TimerTicks
      split <;> omega
    have := (t.timer.delay_range random).2
    change 0 + t.timer.delay random < 2147483648
    omega
  obtain ⟨⟨new, perm, keys, future⟩, fired, -, -⟩ := callBack_schedules timely rfl inRange run
  obtain ⟨after, -, clock, checking⟩ := callBack_responds timely rfl inRange run
  have slices : t.slices = [0] := by
    unfold Sliced.slices
    rw [fired]
    rfl
  have kept : t.interrupt.Kept := ⟨after, .outside checking⟩
  apply Slicing.renewed random kept
  · constructor
    · rw [fired]
      intro f hf
      cases hf
    · intro idle loop
      cases checking.symm.trans loop
    · intro _ p hp
      rw [clock]
      apply future
      have listed := perm.mem_iff.mp hp
      rwa [show Interrupt.initial.pending = [] from rfl, List.append_nil] at listed
    · intro gives
      cases checking.symm.trans gives
  · rw [clock]
    unfold lastSlice
    simp only [slices]
    rfl
  · rw [slices]
    exact .singleton 0
  · rw [setInterrupt_scheduled] at keys
    rw [clock]
    exact timer_new perm rfl keys

theorem slices_getLast? : t.slices.getLast? = some t.lastSlice :=
  List.getLast?_eq_some_getLast (List.cons_ne_nil _ _)

theorem timer_slicing {random : Nat} {idle : Bool} {s' : Interrupt} (h : t.Slicing)
    (atTimer : t.AtTimer) (loop : t.interrupt.checking = .firing idle)
    (inRange : Interrupt.InRange (.fire (t.timerCalls random)) t.interrupt)
    (run : t.interrupt.fire idle (t.timerCalls random) = .ok s') :
    Slicing { t with interrupt := s' } := by
  obtain ⟨front, mine, due, clock, slices, renewed⟩ := timer_cases h atTimer loop inRange run
  have own : front ∈ t.mine := by simp [mine]
  have pending : front ∈ t.interrupt.pending := (List.mem_filter.mp own).1
  have near := (h.prompt.firing idle loop).2 front pending
  have ahead := h.ahead front own
  apply Slicing.renewed random
  · exact (fire_kept h.kept loop inRange run).1
  · exact fire_prompt h.kept h.prompt loop inRange run
  · unfold lastSlice
    simp only [slices, List.getLast_append_singleton, clock]
  · rw [slices, List.isChain_append]
    refine ⟨h.slices, .singleton _, ?_⟩
    intro start last stop only
    rw [slices_getLast?] at last
    cases last
    cases only
    change t.lastSlice + t.timer.shortest ≤ t.interrupt.totalTicks ∧
      t.interrupt.totalTicks < t.lastSlice + t.timer.longest + SystemTick
    omega
  · rw [renewed, clock]

theorem next_slicing {e : AlarmEvent} (h : t.Slicing) (inRange : InRange e t)
    (happens : t.next e = some t') : t'.Slicing := by
  cases e with
  | device e =>
    obtain ⟨elsewhere, happens⟩ := Option.ite_none_right_eq_some.mp happens
    obtain ⟨s', step, rfl⟩ := Option.map_eq_some_iff.mp happens
    obtain ⟨kept, later⟩ := next_kept h.kept inRange step
    exact h.bystander (device_bystander h.kept inRange elsewhere step) kept
      (next_prompt h.kept h.prompt inRange step) later
  | timer random =>
    obtain ⟨atTimer, happens⟩ := Option.ite_none_right_eq_some.mp happens
    obtain ⟨s', step, rfl⟩ := Option.map_eq_some_iff.mp happens
    simp only [Interrupt.next] at step
    split at step
    next idle loop => exact timer_slicing h atTimer loop inRange (Exec.toOption_eq_some.mp step)
    next => cases step
  | disable =>
    cases happens
    exact { h with armed := fun enabled => by cases enabled }

theorem gaps_bounds {timer : Timer} {start : Int} {later : List Int}
    (h : (start :: later).IsChain (Gap timer)) :
    start + timer.shortest * later.length ≤ (start :: later).getLast (List.cons_ne_nil _ _) ∧
      (start :: later).getLast (List.cons_ne_nil _ _) ≤
        start + (timer.longest + SystemTick) * later.length := by
  induction later generalizing start with
  | nil => simp
  | cons stop later ih =>
    obtain ⟨⟨least, most⟩, rest⟩ := List.isChain_cons_cons.mp h
    obtain ⟨lower, upper⟩ := ih rest
    rw [List.getLast_cons (List.cons_ne_nil _ _), List.length_cons]
    push_cast
    rw [mul_add, mul_add, mul_one, mul_one]
    omega

/-- The time slices of a run. -/
structure TimeSliced (t : Sliced) : Prop where
  gaps : t.slices.IsChain (Gap t.timer)
  /-- The timer has been called as often as its delays say. -/
  least : t.timer.shortest * (t.slices.length - 1) ≤ t.interrupt.totalTicks
  most : t.timer.disable = false → t.interrupt.checking = .outside →
    t.interrupt.totalTicks < (t.timer.longest + SystemTick) * t.slices.length
  /-- There is always one interrupt of the timer to come, and it is never overdue. -/
  one : t.timer.disable = false → ∃ p, t.mine = [p]
  current : t.timer.disable = false → t.interrupt.checking = .outside →
    t.interrupt.totalTicks < t.lastSlice + t.timer.longest
  /-- So `Idle` always finds an interrupt to wait for, and does not halt the machine. -/
  awake : t.timer.disable = false → t.interrupt.checking ≠ .checked true false
  /-- The timer's handler never fails, and asks for a switch unless the machine is idle. -/
  answers : t.AtTimer → ∀ idle, t.interrupt.checking = .firing idle →
    ∀ random, InRange (.timer random) t → ∃ t', t.next (.timer random) = some t' ∧
      (t.interrupt.status ≠ .idleMode → t'.interrupt.yieldOnReturn = true)
  /-- The request stands until `OneTick` returns. -/
  yields : ∀ e t', InRange e t → t.next e = some t' → e ≠ .device .afterCheck →
    t.interrupt.yieldOnReturn = true → t'.interrupt.yieldOnReturn = true
  /-- A disabled timer is called for the interrupt that is pending, and not again. -/
  stops : t.timer.disable = true → ∀ e t', InRange e t → t.next e = some t' →
    t'.timer.disable = true ∧
      t'.slices.length + t'.mine.length ≤ t.slices.length + t.mine.length

theorem Slicing.one (h : t.Slicing) (enabled : t.timer.disable = false) : ∃ p, t.mine = [p] := by
  apply List.length_eq_one_iff.mp
  have some := List.length_pos_iff.mpr (h.armed enabled)
  have atMost := h.atMost
  omega

theorem Slicing.current (h : t.Slicing) (enabled : t.timer.disable = false)
    (outside : t.interrupt.checking = .outside) :
    t.interrupt.totalTicks < t.lastSlice + t.timer.longest := by
  obtain ⟨p, mine⟩ := h.one enabled
  have own : p ∈ t.mine := by simp [mine]
  have := (h.ahead p own).2
  have := h.prompt.settled (by simp [outside]) p (List.mem_filter.mp own).1
  omega

theorem Slicing.counted (h : t.Slicing) :
    t.timer.shortest * (t.slices.length - 1) ≤ t.interrupt.totalTicks ∧
      (t.timer.disable = false → t.interrupt.checking = .outside →
        t.interrupt.totalTicks < (t.timer.longest + SystemTick) * t.slices.length) := by
  have passed := h.passed
  obtain ⟨lower, upper⟩ := gaps_bounds h.slices
  change _ ≤ t.lastSlice at lower
  change t.lastSlice ≤ _ at upper
  have positive : 0 < SystemTick := by decide
  have length : t.slices.length = _ + 1 := List.length_cons
  rw [length]
  push_cast
  rw [add_sub_cancel_right, mul_add, mul_one]
  constructor
  · omega
  · intro enabled outside
    have := h.current enabled outside
    omega

theorem Slicing.answers {idle : Bool} {random : Nat} (h : t.Slicing) (atTimer : t.AtTimer)
    (loop : t.interrupt.checking = .firing idle) (inRange : InRange (.timer random) t) :
    ∃ t', t.next (.timer random) = some t' ∧
      (t.interrupt.status ≠ .idleMode → t'.interrupt.yieldOnReturn = true) := by
  obtain ⟨off, front, rest, pending, due⟩ := h.kept.placed.firing idle loop
  have popped := h.kept.timely.pop pending due
  have inHandler := (h.prompt.firing idle loop).1
  obtain ⟨s', run, yields⟩ := callBack_timer popped inHandler inRange
  have fires : t.interrupt.fire idle (t.timerCalls random) = .ok (s'.again idle) := by
    simp only [fire, pending, removeFront, timerCalls, run, Exec.ok_bind]
  refine ⟨{ t with interrupt := s'.again idle }, ?_, ?_⟩
  · simp only [next, if_pos atTimer, Interrupt.next, loop, fires]
    rfl
  · intro active
    exact (again_unfired _ _).yieldOnReturn.trans (yields active)

theorem Slicing.yields {e : AlarmEvent} (h : t.Slicing) (inRange : InRange e t)
    (happens : t.next e = some t') (inside : e ≠ .device .afterCheck)
    (yields : t.interrupt.yieldOnReturn = true) : t'.interrupt.yieldOnReturn = true := by
  cases e with
  | device e =>
    obtain ⟨-, happens⟩ := Option.ite_none_right_eq_some.mp happens
    obtain ⟨s', step, rfl⟩ := Option.map_eq_some_iff.mp happens
    have inside : e ≠ .afterCheck := by
      intro same
      exact inside (congrArg _ same)
    exact next_yields h.kept inRange step inside yields
  | timer random =>
    obtain ⟨-, happens⟩ := Option.ite_none_right_eq_some.mp happens
    obtain ⟨s', step, rfl⟩ := Option.map_eq_some_iff.mp happens
    have within : Interrupt.InRange (.fire (t.timerCalls random)) t.interrupt := inRange
    exact next_yields h.kept within step (by simp) yields
  | disable =>
    cases happens
    exact yields

theorem Slicing.stops {e : AlarmEvent} (h : t.Slicing) (disabled : t.timer.disable = true)
    (inRange : InRange e t) (happens : t.next e = some t') : t'.timer.disable = true ∧
      t'.slices.length + t'.mine.length ≤ t.slices.length + t.mine.length := by
  cases e with
  | device e =>
    obtain ⟨elsewhere, happens⟩ := Option.ite_none_right_eq_some.mp happens
    obtain ⟨s', step, rfl⟩ := Option.map_eq_some_iff.mp happens
    obtain ⟨-, mine, slices⟩ := device_bystander h.kept inRange elsewhere step
    exact ⟨disabled, by rw [slices, mine.length_eq]⟩
  | timer random =>
    obtain ⟨atTimer, happens⟩ := Option.ite_none_right_eq_some.mp happens
    obtain ⟨s', step, rfl⟩ := Option.map_eq_some_iff.mp happens
    simp only [Interrupt.next] at step
    split at step
    next idle loop =>
      obtain ⟨front, mine, -, -, slices, renewed⟩ :=
        timer_cases h atTimer loop inRange (Exec.toOption_eq_some.mp step)
      rw [if_pos disabled] at renewed
      rw [slices, List.map_eq_nil_iff.mp renewed, mine]
      simp [disabled]
    next => cases step
  | disable =>
    cases happens
    exact ⟨rfl, le_rfl⟩

end Sliced

/-- In every run of the kernel's alarm with any other devices, while the times stay below 2^31. -/
theorem alarm_slices_time (t : Sliced) (reached : alarmMachine.ReachableUnder Sliced.InRange t) :
    t.TimeSliced := by
  have slicing : t.Slicing := by
    refine reached.invariant ?_ ?_
    · intro t boots
      exact Sliced.boots_slicing boots
    · intro e t t' slicing inRange happens
      exact Sliced.next_slicing slicing inRange happens
  obtain ⟨least, most⟩ := slicing.counted
  exact {
    gaps := slicing.slices
    least := least
    most := most
    one := slicing.one
    current := slicing.current
    awake := by
      intro enabled gives
      obtain ⟨p, mine⟩ := slicing.one enabled
      have own : p ∈ t.mine := by simp [mine]
      have pending := (List.mem_filter.mp own).1
      rw [slicing.prompt.idle gives] at pending
      cases pending
    answers := fun atTimer idle loop random inRange => slicing.answers atTimer loop inRange
    yields := fun e t' inRange happens => slicing.yields inRange happens
    stops := fun disabled e t' inRange happens => slicing.stops disabled inRange happens }

/-- An alarm with random time slices, as it boots. -/
def booted : Sliced where
  interrupt := { Interrupt.initial with pending := [⟨7, 1, .timerInt, 0⟩], scheduled := 1 }
  timer := ⟨7, true, false⟩

/-- A slice of the kernel, an idle one, and the last one of a disabled timer. -/
def slicing : List AlarmEvent :=
  [.device (.schedule 3 40 .diskInt), .device (.setLevel .on), .timer 0, .device .afterCheck,
    .device (.setLevel .off), .device .idle, .timer 50, .device .afterCheck, .disable,
    .device .idle,
    .device (.fire [.v]), .device .afterCheck, .device .idle, .timer 5]

theorem alarm_slices_time_slicing :
    ∃ t, alarmMachine.runUnder Sliced.InRange slicing booted = some t ∧
      t.slices = [0, 10, 11, 62] ∧ t.mine = [] ∧ t.TimeSliced := by
  have runs : (alarmMachine.runUnder Sliced.InRange slicing booted).map
      (fun t => (t.slices, t.mine)) = some ([0, 10, 11, 62], []) := by
    decide
  obtain ⟨t, ht, shown⟩ := Option.map_eq_some_iff.mp runs
  obtain ⟨slices, mine⟩ := Prod.mk.inj shown
  have boots : booted.Boots := ⟨rfl, 0, by decide⟩
  have start : alarmMachine.ReachableUnder Sliced.InRange booted := .init boots
  exact ⟨t, ht, slices, mine, alarm_slices_time t (start.runUnder slicing ht)⟩

end NachOS
