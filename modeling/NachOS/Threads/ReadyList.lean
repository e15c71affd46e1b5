import NachOS.Threads.Scheduler

/-!
# The order of the ready list (threads/scheduler.cc:43-90, threads/thread.cc:186-255)

`ReadyToRun` appends to the ready list and `FindNextToRun` takes its front, and nothing else
touches it. So threads get the processor in the order in which they became ready, nobody is
overtaken, and every time slice that ends (`OneTick` finds `yieldOnReturn` set) brings each
waiting thread one place forward.
-/
namespace NachOS.Threads
open NachOS.Lib NachOS.Library

namespace Kernel

/-- In the loop of `Sleep`. -/
def InSleep (k : Kernel) : Prop :=
  match k.control with
  | .sleeping _ | .idle _ => True
  | _ => False

/-- A thread that has been forked and has begun leaves the processor in `Run`. -/
def Left (k : Kernel) (t : Nat) : Prop :=
  k.frame t ≠ .fresh ∧ k.status t ≠ some .justCreated

/-- Only a thread that was just created gets a frame in `ThreadRoot`. -/
structure Steady (k k' : Kernel) : Prop where
  allocated : k.allocated ≤ k'.allocated
  frame : ∀ t < k.allocated, k'.frame t = .fresh → k.frame t = .fresh ∨
    k.status t = some .justCreated
  status : ∀ t < k.allocated, k'.status t = some .justCreated → k.status t = some .justCreated

/-- Threads became ready, and none was taken. -/
structure Adds (k k' : Kernel) : Prop where
  list : ∃ came, k'.readyList = k.readyList ++ came
  control : k'.control = .switched → k.control = .switched
  currentThread : k'.currentThread = k.currentThread
  steady : k.Steady k'
  asleep : k'.InSleep → k.InSleep ∨
    (k.currentThread < k.allocated → k'.Left k.currentThread)

/-- The front of the ready list is on its way to the processor. -/
structure Dispatches (k k' : Kernel) : Prop where
  list : ∃ came, k.readyList ++ came = k'.currentThread :: k'.readyList
  control : k'.control = .switched
  steady : k.Steady k'
  left : k.InSleep ∨ k'.frame k.currentThread ≠ .fresh

variable {k k' k'' : Kernel} {t : Nat}

section Relations

theorem Steady.congr (allocated : k'.allocated = k.allocated) (frame : k'.frame = k.frame)
    (status : k'.status = k.status) : k.Steady k' where
  allocated := Nat.le_of_eq allocated.symm
  frame _ _ fresh := .inl (frame ▸ fresh)
  status _ _ created := status ▸ created

theorem Steady.of_congr {c : Control} (h : Steady { k with control := c } k') : k.Steady k' :=
  ⟨h.allocated, h.frame, h.status⟩

theorem Steady.trans (first : k.Steady k') (second : k'.Steady k'') : k.Steady k'' where
  allocated := Nat.le_trans first.allocated second.allocated
  frame t live fresh := by
    have live' := Nat.lt_of_lt_of_le live first.allocated
    rcases second.frame t live' fresh with fresh | created
    · exact first.frame t live fresh
    · exact .inr (first.status t live created)
  status t live created :=
    first.status t live (second.status t (Nat.lt_of_lt_of_le live first.allocated) created)

theorem Steady.left (h : k.Steady k') (live : t < k.allocated) (left : k.Left t) :
    k'.Left t := by
  refine ⟨fun fresh => ?_, fun created => left.2 (h.status t live created)⟩
  rcases h.frame t live fresh with fresh | created
  · exact left.1 fresh
  · exact left.2 created

/-- A thread changed its status, and was not created just now. -/
theorem Steady.of_status {st : Option ThreadStatus} (allocated : k'.allocated = k.allocated)
    (frame : k'.frame = k.frame) (status : k'.status = Function.update k.status t st)
    (old : st ≠ some .justCreated) : k.Steady k' where
  allocated := Nat.le_of_eq allocated.symm
  frame _ _ fresh := .inl (frame ▸ fresh)
  status u _ created := by
    rw [status] at created
    by_cases same : u = t
    · subst same
      rw [Function.update_self] at created
      exact absurd created old
    · rwa [Function.update_of_ne same] at created

/-- A thread left a frame. -/
theorem Steady.of_frame {f : Frame} (allocated : k'.allocated = k.allocated)
    (frame : k'.frame = Function.update k.frame t f) (status : k'.status = k.status)
    (entered : f ≠ .fresh ∨ k.status t = some .justCreated) : k.Steady k' where
  allocated := Nat.le_of_eq allocated.symm
  frame u _ fresh := by
    rw [frame] at fresh
    by_cases same : u = t
    · subst same
      rw [Function.update_self] at fresh
      rcases entered with entered | created
      · exact absurd fresh entered
      · exact .inr created
    · rw [Function.update_of_ne same] at fresh
      exact .inl fresh
  status _ _ created := status ▸ created

/-- Only what the ready list, the current thread and the place in the code do not show. -/
theorem Steady.adds (h : k.Steady k') (list : k'.readyList = k.readyList)
    (currentThread : k'.currentThread = k.currentThread) (control : k'.control = k.control) :
    k.Adds k' where
  list := ⟨[], by rw [list, List.append_nil]⟩
  control switched := control ▸ switched
  currentThread := currentThread
  steady := h
  asleep asleep := by
    unfold InSleep at asleep ⊢
    rw [control] at asleep
    exact .inl asleep

theorem Adds.refl (k : Kernel) : k.Adds k :=
  ⟨⟨[], by rw [List.append_nil]⟩, id, rfl, .congr rfl rfl rfl, .inl⟩

theorem Adds.congr (readyList : k'.readyList = k.readyList)
    (currentThread : k'.currentThread = k.currentThread) (allocated : k'.allocated = k.allocated)
    (frame : k'.frame = k.frame) (status : k'.status = k.status)
    (control : k'.control = k.control) : k.Adds k' :=
  (Steady.congr allocated frame status).adds readyList currentThread control

theorem Adds.trans (first : k.Adds k') (second : k'.Adds k'') : k.Adds k'' := by
  obtain ⟨came, list⟩ := first.list
  obtain ⟨later, list'⟩ := second.list
  have current := first.currentThread
  refine ⟨⟨came ++ later, by rw [list', list, List.append_assoc]⟩,
    fun switched => first.control (second.control switched),
    second.currentThread.trans current, first.steady.trans second.steady, ?_⟩
  intro asleep
  rcases second.asleep asleep with asleep | left
  · rcases first.asleep asleep with asleep | left
    · exact .inl asleep
    · refine .inr fun live => ?_
      exact second.steady.left (Nat.lt_of_lt_of_le live first.steady.allocated) (left live)
  · refine .inr fun live => ?_
    rw [current] at left
    exact left (Nat.lt_of_lt_of_le live first.steady.allocated)

/-- On to another place in the code of the thread. -/
theorem Adds.goto {c : Control} (h : k.Adds k')
    (place : c = .body ∨ c = .tick ∨ c = .tickReturn) : k.Adds { k' with control := c } where
  list := h.list
  control switched := by
    rcases place with rfl | rfl | rfl <;> cases switched
  currentThread := h.currentThread
  steady := h.steady.trans (.congr rfl rfl rfl)
  asleep asleep := by
    rcases place with rfl | rfl | rfl <;> exact absurd asleep id

/-- On in the loop of `Sleep`. -/
theorem Adds.stays {c : Control} (h : k.Adds k') (asleep : k.InSleep) (place : c ≠ .switched) :
    k.Adds { k' with control := c } where
  list := h.list
  control switched := absurd switched place
  currentThread := h.currentThread
  steady := h.steady.trans (.congr rfl rfl rfl)
  asleep _ := .inl asleep

/-- A routine that starts at another place in the code of the thread. -/
theorem Adds.of_goto {c : Control} (h : Adds { k with control := c } k')
    (place : c = .body ∨ c = .tick ∨ c = .tickReturn) : k.Adds k' ∧ k'.control ≠ .switched := by
  have outside : k'.control ≠ .switched := by
    intro switched
    have started := h.control switched
    rcases place with rfl | rfl | rfl <;> cases started
  refine ⟨⟨h.list, fun switched => absurd switched outside, h.currentThread,
    h.steady.of_congr, ?_⟩, outside⟩
  intro asleep
  rcases h.asleep asleep with started | left
  · rcases place with rfl | rfl | rfl <;> exact absurd started id
  · exact .inr left

end Relations

section Routines

theorem setStatus_ok {st : ThreadStatus} (h : k.setStatus t st = .ok k') :
    k' = { k with status := Function.update k.status t (some st) } := by
  obtain ⟨_, _, h⟩ := Exec.bind_eq_ok.mp h
  exact (Except.ok.inj h).symm

theorem readyToRun_ok (h : k.readyToRun t = .ok k') :
    k' = { k with
      status := Function.update k.status t (some .ready)
      readyList := k.readyList ++ [t] } := by
  obtain ⟨_, _, h⟩ := Exec.bind_eq_ok.mp h
  obtain ⟨mid, marked, h⟩ := Exec.bind_eq_ok.mp h
  obtain rfl := setStatus_ok marked
  simp only at h
  split at h
  next => cases h
  next list added =>
    cases h
    rw [(append_eq_some.mp added).2]

theorem readyToRun_adds (h : k.readyToRun t = .ok k') : k.Adds k' := by
  obtain rfl := readyToRun_ok h
  exact ⟨⟨[t], rfl⟩, id, rfl, .of_status rfl rfl rfl (by decide), .inl⟩

theorem setLevel_adds {now : IntStatus} (h : k.setLevel now = .ok k') : k.Adds k' := by
  obtain ⟨_, _, h⟩ := Exec.bind_eq_ok.mp h
  have level : k.Adds { k with level := now } :=
    .congr rfl rfl rfl rfl rfl rfl
  simp only at h
  split at h
  next =>
    cases h
    exact level.goto (.inr (.inl rfl))
  next =>
    cases h
    exact level

theorem v_adds {i : Nat} (h : k.v i = .ok k') : k.Adds k' := by
  obtain ⟨off, lowered, h⟩ := Exec.bind_eq_ok.mp h
  have lowers := setLevel_adds lowered
  cases woken : (off.semaphore i).V with
  | mk waiter semaphore =>
    rw [woken] at h
    have stores (k : Kernel) :
        k.Adds { k with semaphore := Function.update k.semaphore i semaphore } :=
      .congr rfl rfl rfl rfl rfl rfl
    cases waiter with
    | none => exact lowers.trans ((stores off).trans (setLevel_adds h))
    | some thread =>
      obtain ⟨ready, readied, h⟩ := Exec.bind_eq_ok.mp h
      have raises := (stores ready).trans (setLevel_adds h)
      exact lowers.trans ((readyToRun_adds readied).trans raises)

theorem handle_adds {call : HandlerCall} (h : k.handle call = .ok k') : k.Adds k' := by
  cases call with
  | v i => exact v_adds h
  | yieldOnReturn =>
    obtain ⟨_, _, h⟩ := Exec.bind_eq_ok.mp h
    cases h
    exact .congr rfl rfl rfl rfl rfl rfl

theorem handleAll_adds {calls : List HandlerCall} (h : k.handleAll calls = .ok k') :
    k.Adds k' := by
  induction calls generalizing k with
  | nil =>
    cases h
    exact .refl _
  | cons call calls ih =>
    obtain ⟨mid, first, h⟩ := Exec.bind_eq_ok.mp h
    exact (handle_adds first).trans (ih h)

theorem checkIfDue_adds {due : Option (List HandlerCall)} {fired : Bool}
    (h : k.checkIfDue due = .ok (fired, k')) : k.Adds k' := by
  obtain ⟨_, _, h⟩ := Exec.bind_eq_ok.mp h
  split at h
  next =>
    cases h
    exact .refl k
  next calls =>
    obtain ⟨mid, handled, h⟩ := Exec.bind_eq_ok.mp h
    cases h
    have enters : k.Adds { k with inHandler := true } :=
      .congr rfl rfl rfl rfl rfl rfl
    have leaves : mid.Adds { mid with inHandler := false } :=
      .congr rfl rfl rfl rfl rfl rfl
    exact enters.trans ((handleAll_adds handled).trans leaves)

/-- The caller of `Sleep` has put the frame there that the thread comes back to. -/
theorem sleep_adds {finishing : Bool} (h : k.sleep t finishing = .ok k')
    (frame : k.frame k.currentThread ≠ .fresh) : k.Adds k' := by
  obtain ⟨_, isCurrent, off⟩ := Exec.bind_eq_ok.mp h
  obtain rfl := check_eq_ok.mp isCurrent
  obtain ⟨_, _, sets⟩ := Exec.bind_eq_ok.mp off
  obtain ⟨mid, marked, done⟩ := Exec.bind_eq_ok.mp sets
  obtain rfl := setStatus_ok marked
  clear h off sets
  cases done
  exact {
    list := ⟨[], by rw [List.append_nil]⟩
    control := fun switched => by cases switched
    currentThread := rfl
    steady := .of_status rfl rfl rfl (by decide)
    asleep := fun _ => .inr fun _ => ⟨frame, by simp⟩ }

/-- `Sleep` in a function that leaves its frame. -/
theorem sleep_in_adds {f : Frame} {semaphore : Nat → Semaphore Nat} {finishing : Bool}
    (entered : f ≠ .fresh)
    (h : sleep { k with
      semaphore
      frame := Function.update k.frame k.currentThread f } t finishing = .ok k') :
    k.Adds k' := by
  have leaves : k.Adds { k with
      semaphore
      frame := Function.update k.frame k.currentThread f } :=
    Steady.adds (.of_frame rfl rfl rfl (.inl entered)) rfl rfl rfl
  have frame : Function.update k.frame k.currentThread f k.currentThread ≠ .fresh := by
    rw [Function.update_self]
    exact entered
  exact leaves.trans (sleep_adds h frame)

theorem pLoop_adds {i : Nat} {oldLevel : IntStatus} (h : k.pLoop i t oldLevel = .ok k') :
    k.Adds k' := by
  unfold pLoop at h
  split at h
  next => cases h
  next semaphore _ =>
    have stores : k.Adds { k with semaphore := Function.update k.semaphore i semaphore } :=
      .congr rfl rfl rfl rfl rfl rfl
    exact stores.trans (setLevel_adds h)
  next => exact sleep_in_adds (by simp) h

theorem finish_adds (h : k.finish t = .ok k') : k.Adds k' := by
  obtain ⟨off, lowered, h⟩ := Exec.bind_eq_ok.mp h
  obtain ⟨_, _, sleeps⟩ := Exec.bind_eq_ok.mp h
  exact (setLevel_adds lowered).trans (sleep_in_adds (by simp) sleeps)

theorem checkToBeDestroyed_adds (h : k.checkToBeDestroyed = .ok k') : k.Adds k' := by
  unfold checkToBeDestroyed at h
  split at h
  next =>
    cases h
    exact .refl k
  next =>
    obtain ⟨_, _, h⟩ := Exec.bind_eq_ok.mp h
    obtain ⟨_, _, h⟩ := Exec.bind_eq_ok.mp h
    cases h
    exact Steady.adds (.of_status rfl rfl rfl (by decide)) rfl rfl rfl

theorem fork_adds (created : k.status t = some .justCreated) (h : k.fork t = .ok k') :
    k.Adds k' := by
  obtain ⟨off, lowered, h⟩ := Exec.bind_eq_ok.mp h
  obtain ⟨ready, readied, h⟩ := Exec.bind_eq_ok.mp h
  have allocates : k.Adds { k with frame := Function.update k.frame t .fresh } :=
    Steady.adds (.of_frame rfl rfl rfl (.inr created)) rfl rfl rfl
  have lowers := allocates.trans (setLevel_adds lowered)
  exact lowers.trans ((readyToRun_adds readied).trans (setLevel_adds h))

theorem newThread_adds : k.Adds k.newThread := by
  have steady : k.Steady k.newThread := by
    refine ⟨Nat.le_succ _, fun _ _ => .inl, ?_⟩
    intro t live created
    simpa only [newThread, Function.update_of_ne (Nat.ne_of_lt live)] using created
  exact steady.adds rfl rfl rfl

theorem run_ok {finishing : Bool} (h : k.run t finishing = .ok k') :
    k' = { k with
      toBeDestroyed := if finishing then some k.currentThread else k.toBeDestroyed
      currentThread := t
      status := Function.update k.status t (some .running)
      control := .switched } := by
  obtain ⟨_, _, h⟩ := Exec.bind_eq_ok.mp h
  cases finishing with
  | false =>
    obtain ⟨old, same, h⟩ := Exec.bind_eq_ok.mp h
    cases same
    obtain ⟨running, sets, h⟩ := Exec.bind_eq_ok.mp h
    obtain rfl := setStatus_ok sets
    cases h
    rfl
  | true =>
    obtain ⟨_, _, h⟩ := Exec.bind_eq_ok.mp h
    obtain ⟨old, marks, h⟩ := Exec.bind_eq_ok.mp h
    cases marks
    obtain ⟨running, sets, h⟩ := Exec.bind_eq_ok.mp h
    obtain rfl := setStatus_ok sets
    cases h
    rfl

theorem run_steady {finishing : Bool} (h : k.run t finishing = .ok k') : k.Steady k' := by
  obtain rfl := run_ok h
  exact .of_status rfl rfl rfl (by decide)

theorem findNextToRun_ok {next : Option Nat} (h : k.findNextToRun = .ok (next, k')) :
    (next = none ∧ k.readyList = [] ∧ k' = k) ∨
    ∃ t rest, next = some t ∧ k.readyList = t :: rest ∧ k' = { k with readyList := rest } := by
  obtain ⟨_, _, h⟩ := Exec.bind_eq_ok.mp h
  cases list : k.readyList with
  | nil =>
    rw [list] at h
    cases h
    exact .inl ⟨rfl, rfl, rfl⟩
  | cons t rest =>
    rw [list] at h
    cases h
    exact .inr ⟨t, rest, rfl, rfl, rfl⟩

/-- `Yield` gives the processor to the front of the list, if there is one. -/
theorem yield_cases (h : k.yield t = .ok k') :
    k.readyList = [] ∧ k.Adds k' ∨ k.readyList ≠ [] ∧ k.Dispatches k' := by
  obtain ⟨off, lowered, rest⟩ := Exec.bind_eq_ok.mp h
  obtain ⟨_, _, rest⟩ := Exec.bind_eq_ok.mp rest
  obtain ⟨⟨next, found⟩, finds, last⟩ := Exec.bind_eq_ok.mp rest
  clear h rest
  rw [setLevel_off] at lowered
  cases lowered
  have lowers : k.Adds { k with level := .off } :=
    .congr rfl rfl rfl rfl rfl rfl
  rcases findNextToRun_ok finds with ⟨rfl, empty, rfl⟩ | ⟨front, back, rfl, list, rfl⟩
  · exact .inl ⟨empty, lowers.trans (setLevel_adds last)⟩
  · right
    have list : k.readyList = front :: back := list
    obtain ⟨ready, readied, last⟩ := Exec.bind_eq_ok.mp last
    have takes : k.Steady { k with level := .off, readyList := back } := .congr rfl rfl rfl
    have leaves : ready.Steady { ready with
        frame := Function.update ready.frame ready.currentThread (.yield k.level) } :=
      .of_frame rfl rfl rfl (.inl (by simp))
    have steady := (takes.trans (readyToRun_adds readied).steady).trans
      (leaves.trans (run_steady last))
    obtain rfl := readyToRun_ok readied
    obtain rfl := run_ok last
    exact ⟨by simp [list], {
      list := ⟨[t], by rw [list]; rfl⟩
      control := rfl
      steady := steady
      left := .inr (by simp) }⟩

theorem dispatch_cases {finishing : Bool} (control : k.control = .sleeping finishing)
    (h : k.dispatch finishing = .ok k') :
    k.Adds k' ∨ k.Dispatches k' := by
  have asleep : k.InSleep := by simp [InSleep, control]
  obtain ⟨⟨next, found⟩, finds, last⟩ := Exec.bind_eq_ok.mp h
  clear h
  rcases findNextToRun_ok finds with ⟨rfl, empty, rfl⟩ | ⟨front, back, rfl, list, rfl⟩
  · cases last
    exact .inl ((Adds.refl _).stays asleep Control.noConfusion)
  · have takes : k.Steady { k with readyList := back } := .congr rfl rfl rfl
    have steady := takes.trans (run_steady last)
    obtain rfl := run_ok last
    refine .inr ⟨⟨[], ?_⟩, rfl, steady, .inl asleep⟩
    rw [List.append_nil, list]

theorem resume_adds (h : k.resume = .ok k') : k.Adds k' ∧ k'.control ≠ .switched := by
  have body : Adds { k with control := .body } k' → k.Adds k' ∧ k'.control ≠ .switched :=
    fun adds => adds.of_goto (.inl rfl)
  unfold resume at h
  simp only at h
  split at h
  next =>
    obtain ⟨_, _, h⟩ := Exec.bind_eq_ok.mp h
    obtain ⟨mid, checked, h⟩ := Exec.bind_eq_ok.mp h
    exact body ((checkToBeDestroyed_adds checked).trans (setLevel_adds h))
  next =>
    obtain ⟨mid, back, h⟩ := Exec.bind_eq_ok.mp h
    obtain ⟨_, _, back⟩ := Exec.bind_eq_ok.mp back
    exact body ((checkToBeDestroyed_adds back).trans (setLevel_adds h))
  next =>
    obtain ⟨mid, back, h⟩ := Exec.bind_eq_ok.mp h
    obtain ⟨_, _, back⟩ := Exec.bind_eq_ok.mp back
    exact body ((checkToBeDestroyed_adds back).trans (pLoop_adds h))
  next => cases h

end Routines

/-- The end of a time slice: `OneTick` is about to call `Yield`. -/
def SliceEnds (k : Kernel) (e : KernelEvent) : Prop :=
  e = .tickReturn ∧ k.yieldOnReturn = true

instance (k : Kernel) (e : KernelEvent) : Decidable (k.SliceEnds e) :=
  inferInstanceAs (Decidable (_ ∧ _))

/-- A step that only adds, from a place other than right after a switch. -/
theorem Adds.outcome {e : KernelEvent} (adds : k.Adds k') (outside : k.control ≠ .switched)
    (other : e ≠ .resume) (slice : k.SliceEnds e → k.readyList = []) :
    (e = .resume ↔ k.control = .switched) ∧ k'.control ≠ .switched ∧ k.Adds k' ∧
      (k.SliceEnds e → k.readyList = []) :=
  ⟨⟨fun same => absurd same other, fun same => absurd same outside⟩,
    fun switched => outside (adds.control switched), adds, slice⟩

theorem of_body {r : Option (Exec Kernel)}
    (h : (if k.control = .body then r else none) = some (.ok k')) :
    k.control ≠ .switched ∧ r = some (.ok k') := by
  obtain ⟨control, h⟩ := Option.ite_none_right_eq_some.mp h
  exact ⟨by simp [control], h⟩

theorem step_fork {t : Nat} (h : k.step (.fork t) = some (.ok k')) :
    k.control ≠ .switched ∧ k.Adds k' := by
  obtain ⟨⟨control, created⟩, h⟩ := Option.ite_none_right_eq_some.mp h
  exact ⟨by simp [control], fork_adds created (Option.some.inj h)⟩

theorem step_p {i : Nat} (h : k.step (.p i) = some (.ok k')) :
    k.control ≠ .switched ∧ k.Adds k' := by
  obtain ⟨outside, h⟩ := of_body h
  obtain ⟨off, lowered, loop⟩ := Exec.bind_eq_ok.mp (Option.some.inj h)
  exact ⟨outside, (setLevel_adds lowered).trans (pLoop_adds loop)⟩

theorem step_tick {due : Option (List HandlerCall)} (h : k.step (.tick due) = some (.ok k')) :
    k.control ≠ .switched ∧ k.Adds k' := by
  obtain ⟨control, h⟩ := Option.ite_none_right_eq_some.mp h
  obtain ⟨⟨fired, mid⟩, checked, h⟩ := Exec.bind_eq_ok.mp (Option.some.inj h)
  cases h
  have lowers : k.Adds { k with level := .off } :=
    .congr rfl rfl rfl rfl rfl rfl
  have raises : mid.Adds { mid with level := .on } :=
    .congr rfl rfl rfl rfl rfl rfl
  have ticks := lowers.trans ((checkIfDue_adds checked).trans raises)
  exact ⟨by simp [control], ticks.goto (.inr (.inr rfl))⟩

/-- The return from `OneTick`, by way of `Yield` if a time slice is over. -/
theorem step_tickReturn (h : k.step .tickReturn = some (.ok k')) :
    k.control ≠ .switched ∧
      (k.Adds k' ∧ (k.yieldOnReturn = true → k.readyList = []) ∨ k.Dispatches k') := by
  obtain ⟨control, h⟩ := Option.ite_none_right_eq_some.mp h
  have h := Option.some.inj h
  refine ⟨by simp [control], ?_⟩
  simp only [oneTickReturn] at h
  split at h
  next =>
    rcases yield_cases h with ⟨empty, added⟩ | ⟨-, dispatched⟩
    · have returns : Adds { k with control := .body } { k with
          control := .body
          yieldOnReturn := false } :=
        .congr rfl rfl rfl rfl rfl rfl
      obtain ⟨added, -⟩ := (returns.trans added).of_goto (.inl rfl)
      exact .inl ⟨added, fun _ => empty⟩
    · have steady : k.Steady { k with
          control := .body
          yieldOnReturn := false } := .congr rfl rfl rfl
      refine .inr ⟨dispatched.list, dispatched.control, steady.trans dispatched.steady, ?_⟩
      rcases dispatched.left with asleep | left
      · exact absurd asleep id
      · exact .inr left
  next quiet =>
    cases h
    exact .inl ⟨(Adds.refl k).goto (.inl rfl), fun ends => absurd ends quiet⟩

theorem step_dispatch (h : k.step .dispatch = some (.ok k')) :
    k.control ≠ .switched ∧ (k.Adds k' ∨ k.Dispatches k') := by
  simp only [step] at h
  split at h
  next finishing control => exact ⟨by simp [control], dispatch_cases control (Option.some.inj h)⟩
  next => cases h

theorem step_idle {due : Option (List HandlerCall)} (h : k.step (.idle due) = some (.ok k')) :
    k.control ≠ .switched ∧ k.Adds k' := by
  simp only [step] at h
  split at h
  next finishing control =>
    obtain ⟨⟨fired, mid⟩, checked, h⟩ := Exec.bind_eq_ok.mp (Option.some.inj h)
    have checks := checkIfDue_adds checked
    cases fired with
    | true =>
      cases h
      have asleep : k.InSleep := by simp [InSleep, control]
      exact ⟨by simp [control], checks.stays asleep (by simp)⟩
    | false => cases h
  next => cases h

/-- One step: either the front of the list is dispatched, or threads are added. -/
theorem step_cases {e : KernelEvent} (h : schedulerMachine.next e k = some k') :
    e ≠ .resume ∧ k.control ≠ .switched ∧ k.Dispatches k' ∨
      (e = .resume ↔ k.control = .switched) ∧ k'.control ≠ .switched ∧ k.Adds k' ∧
        (k.SliceEnds e → k.readyList = []) := by
  have h : k.step e = some (.ok k') := Exec.bind_toOption_eq_some.mp h
  -- Only `tickReturn` ends a time slice.
  have noSlice : e ≠ .tickReturn → k.SliceEnds e → k.readyList = [] :=
    fun other slice => absurd slice.1 other
  cases e with
  | newThread =>
    obtain ⟨outside, h⟩ := of_body h
    cases h
    exact .inr (newThread_adds.outcome outside (by simp) (noSlice (by simp)))
  | fork t =>
    obtain ⟨outside, added⟩ := step_fork h
    exact .inr (added.outcome outside (by simp) (noSlice (by simp)))
  | yield =>
    obtain ⟨outside, h⟩ := of_body h
    rcases yield_cases (Option.some.inj h) with ⟨-, added⟩ | ⟨-, dispatched⟩
    · exact .inr (added.outcome outside (by simp) (noSlice (by simp)))
    · exact .inl ⟨by simp, outside, dispatched⟩
  | p i =>
    obtain ⟨outside, added⟩ := step_p h
    exact .inr (added.outcome outside (by simp) (noSlice (by simp)))
  | v i =>
    obtain ⟨outside, h⟩ := of_body h
    exact .inr ((v_adds (Option.some.inj h)).outcome outside (by simp) (noSlice (by simp)))
  | finish =>
    obtain ⟨outside, h⟩ := of_body h
    exact .inr ((finish_adds (Option.some.inj h)).outcome outside (by simp) (noSlice (by simp)))
  | setLevel now =>
    obtain ⟨outside, h⟩ := of_body h
    exact .inr ((setLevel_adds (Option.some.inj h)).outcome outside (by simp)
      (noSlice (by simp)))
  | instruction =>
    obtain ⟨outside, h⟩ := of_body h
    cases h
    exact .inr (((Adds.refl k).goto (.inr (.inl rfl))).outcome outside (by simp)
      (noSlice (by simp)))
  | tick due =>
    obtain ⟨outside, added⟩ := step_tick h
    exact .inr (added.outcome outside (by simp) (noSlice (by simp)))
  | tickReturn =>
    obtain ⟨outside, ⟨added, empty⟩ | dispatched⟩ := step_tickReturn h
    · exact .inr (added.outcome outside (by simp) fun slice => empty slice.2)
    · exact .inl ⟨by simp, outside, dispatched⟩
  | dispatch =>
    obtain ⟨outside, added | dispatched⟩ := step_dispatch h
    · exact .inr (added.outcome outside (by simp) (noSlice (by simp)))
    · exact .inl ⟨by simp, outside, dispatched⟩
  | idle due =>
    obtain ⟨outside, added⟩ := step_idle h
    exact .inr (added.outcome outside (by simp) (noSlice (by simp)))
  | resume =>
    obtain ⟨control, h⟩ := Option.ite_none_right_eq_some.mp h
    obtain ⟨added, outside⟩ := resume_adds (Option.some.inj h)
    exact .inr ⟨⟨fun _ => control, fun _ => rfl⟩, outside, added, noSlice (by simp)⟩

/-- The threads that are switched to in a run, in that order. -/
def dispatched : List KernelEvent → Kernel → List Nat
  | [], _ => []
  | e :: es, k =>
    ((schedulerMachine.next e k).map fun k' =>
      (if k'.control = .switched then [k'.currentThread] else []) ++ dispatched es k').getD []

/-- How many time slices end in a run. -/
def slices : List KernelEvent → Kernel → Nat
  | [], _ => 0
  | e :: es, k =>
    ((schedulerMachine.next e k).map fun k' =>
      (if k.SliceEnds e then 1 else 0) + slices es k').getD 0

variable {es : List KernelEvent}

/-- The ready list is a queue. -/
theorem dispatched_in_order (run : schedulerMachine.run es k = some k') :
    ∃ came, k.readyList ++ came = dispatched es k ++ k'.readyList := by
  induction es generalizing k with
  | nil =>
    cases run
    exact ⟨[], by simp [dispatched]⟩
  | cons e es ih =>
    obtain ⟨mid, step, run⟩ := Option.bind_eq_some_iff.mp run
    obtain ⟨later, rest⟩ := ih run
    simp only [dispatched, step, Option.map_some, Option.getD_some]
    rcases step_cases step with ⟨-, -, ⟨came, list⟩, control, -, -⟩ |
      ⟨-, control, ⟨⟨came, list⟩, -, -, -, -⟩, -⟩
    · refine ⟨came ++ later, ?_⟩
      rw [if_pos control, ← List.append_assoc, list, List.cons_append, rest]
      rfl
    · refine ⟨came ++ later, ?_⟩
      rw [if_neg control, ← List.append_assoc, ← list, rest]
      rfl

/-- As long as a thread waits, every time slice that ends dispatches one. -/
theorem slices_dispatch {i : Nat} (run : schedulerMachine.run es k = some k')
    (waiting : i < k.readyList.length) (slices : i < slices es k) :
    i < (dispatched es k).length := by
  induction es generalizing k i with
  | nil => simp [Kernel.slices] at slices
  | cons e es ih =>
    obtain ⟨mid, step, run⟩ := Option.bind_eq_some_iff.mp run
    simp only [Kernel.slices, dispatched, step, Option.map_some, Option.getD_some] at slices ⊢
    rcases step_cases step with ⟨-, -, ⟨came, list⟩, control, -, -⟩ |
      ⟨-, control, ⟨⟨came, list⟩, -, -, -, -⟩, slice⟩
    · rw [if_pos control]
      have lengths := congrArg List.length list
      simp only [List.length_append, List.length_cons] at lengths
      cases i with
      | zero => simp
      | succ i =>
        have later := ih (i := i) run (by omega) (by split at slices <;> omega)
        simpa using later
    · have running : ¬ k.SliceEnds e := by
        intro ends
        simp [slice ends] at waiting
      rw [if_neg control]
      rw [if_neg running] at slices
      have lengths := congrArg List.length list
      rw [List.length_append] at lengths
      simpa using ih run (by omega) (by omega)

end Kernel

/-- A thread with `i` others ahead of it in the ready list gets the processor when those have
had it, in their order, and it has to wait for `i + 1` ends of time slices at most. -/
theorem ready_in_turn (k k' : Kernel) (es : List KernelEvent)
    (run : schedulerMachine.run es k = some k') :
    (∃ came, k.readyList ++ came = Kernel.dispatched es k ++ k'.readyList) ∧
      ∀ i < k.readyList.length, i < Kernel.slices es k →
        (Kernel.dispatched es k).take (i + 1) = k.readyList.take (i + 1) := by
  obtain ⟨came, order⟩ := Kernel.dispatched_in_order run
  refine ⟨⟨came, order⟩, ?_⟩
  intro i waiting slices
  have served := Kernel.slices_dispatch run waiting slices
  have front := congrArg (List.take (i + 1)) order
  rw [List.take_append_of_le_length waiting, List.take_append_of_le_length served] at front
  exact front.symm

/-- The main thread forks two threads, and each slice ends with the timer's interrupt. -/
def twoForks : List KernelEvent :=
  [.newThread, .newThread, .fork 1, .fork 2]

def twoSlices : List KernelEvent :=
  [.setLevel .on, .tick (some [.yieldOnReturn]), .tickReturn, .resume,
    .tick (some [.yieldOnReturn]), .tickReturn]

theorem ready_in_turn_forked :
    ∃ k k', schedulerMachine.run twoForks (.initial fun _ => 0) = some k ∧
      schedulerMachine.run twoSlices k = some k' ∧ k.readyList = [1, 2] ∧
      (Kernel.dispatched twoSlices k).take 2 = [1, 2] := by
  have replay : ((schedulerMachine.run twoForks (.initial fun _ => 0)).bind fun k =>
      (schedulerMachine.run twoSlices k).map fun _ =>
        (k.readyList, Kernel.slices twoSlices k)) = some ([1, 2], 2) := by decide
  obtain ⟨k, forks, replay⟩ := Option.bind_eq_some_iff.mp replay
  obtain ⟨k', slices, view⟩ := Option.map_eq_some_iff.mp replay
  obtain ⟨list, count⟩ := Prod.mk.inj view
  refine ⟨k, k', forks, slices, list, ?_⟩
  have turn := (ready_in_turn k k' twoSlices slices).2 1 (by simp [list]) (by simp [count])
  rw [turn, list]
  rfl

end NachOS.Threads
