import NachOS.Threads.Switch

/-!
# The first steps of a thread (threads/switch.S:303-324, threads/thread.cc:102-116,295-360)

`StackAllocate` makes a new thread look as if it had called `SWITCH` from the beginning of
`ThreadRoot`, with what `ThreadRoot` is to call in its registers. Here is what comes of that.
-/
namespace NachOS.Threads
open NachOS.Lib NachOS.Lib.X86

section System

variable {Thread : Type} [DecidableEq Thread] {L : Layout Thread} {t : Thread}

variable {func arg : Word} {memory : Word → Word}

/-- The memory is the same outside of the thread's stack. -/
def Layout.OwnStack (L : Layout Thread) (t : Thread) (x x' : State) : Prop :=
  ∀ a, L.place a ≠ .stack t → x'.data.memory a = x.data.memory a

/-- A function that was called has returned: the registers that belong to the caller, and the
caller's part of the stack, are as they were. The words of the arguments may have changed. -/
structure Layout.Returns (L : Layout Thread) (t : Thread) (arguments : Nat) (x x' : State) :
    Prop where
  eip : x'.eip = x.data.memory (x.data.reg .esp)
  esp : x'.data.reg .esp = x.data.reg .esp + 4
  saved : ∀ r, r = .ebx ∨ r = .esi ∨ r = .edi ∨ r = .ebp → x'.data.reg r = x.data.reg r
  stack : ∀ k, arguments < k → k < StackSize →
    L.place (x.data.reg .esp + BitVec.ofNat 32 (4 * k)) = .stack t →
      x'.data.memory (x.data.reg .esp + BitVec.ofNat 32 (4 * k)) =
        x.data.memory (x.data.reg .esp + BitVec.ofNat 32 (4 * k))

/-- From `x` on, `ThreadBegin()`, `func(arg)` and `ThreadFinish()` are called, each once the
one before has returned. -/
def Layout.Starts (L : Layout Thread) (t : Thread) (func arg : Word) (x : State) : Prop :=
  ∃ x₁, x.run L.code 4 = some x₁ ∧ L.OwnStack t x x₁ ∧ x₁.eip = L.ThreadBegin ∧
    ∀ x₂, L.Returns t 0 x₁ x₂ →
      ∃ x₃, x₂.step L.code = some x₃ ∧ L.OwnStack t x₂ x₃ ∧ x₃.eip = func ∧
        x₃.data.memory (x₃.data.reg .esp + 4) = arg ∧
        ∀ x₄, L.Returns t 1 x₃ x₄ →
          ∃ x₅, x₄.step L.code = some x₅ ∧ L.OwnStack t x₄ x₅ ∧ x₅.eip = L.ThreadFinish

omit [DecidableEq Thread] in
/-- The three words that `ThreadRoot` pushes are on the stack. -/
theorem Layout.place_pushed : L.place (L.stackTop t + 4 - 4) = .stack t ∧
    L.place (L.stackTop t + 4 - 4 - 4) = .stack t ∧
    L.place (L.stackTop t + 4 - 4 - 4 - 4) = .stack t := by
  have below : ∀ k < StackSize, ∀ a : Word, a = BitVec.ofNat 32 (4 * k) →
      L.place (L.stack t + a) = .stack t := by
    rintro k hk a rfl
    exact L.place_stack t k hk
  obtain ⟨top, size, above⟩ : ∃ top, top = BitVec.ofNat 32 (4 * (StackSize - 4)) ∧
      L.stackTop t + 4 = L.stack t + top := ⟨_, rfl, sub_add_cancel _ _⟩
  rw [above, add_sub_assoc, add_sub_assoc, add_sub_assoc]
  refine ⟨below (StackSize - 5) (by decide) _ ?_, below (StackSize - 6) (by decide) _ ?_,
    below (StackSize - 7) (by decide) _ ?_⟩
  · rw [size]
    decide
  · rw [size]
    decide
  · rw [size]
    decide

/-- What `ThreadRoot` does before the first call. -/
theorem threadRoot_pushes {x : State}
    (reg : x.data.reg = (Coroutines.fresh L t func arg memory).reg)
    (eip : x.eip = L.ThreadRoot) :
    ∃ x₁ : State, x.run L.code 3 = some x₁ ∧ L.OwnStack t x x₁ ∧
      Loaded L.code x₁.eip (threadRootCode.drop 3) ∧
      x₁.data.reg .esp = L.stackTop t + 4 - 4 - 4 ∧
      x₁.data.reg .ecx = L.ThreadBegin ∧ x₁.data.reg .esi = func ∧
      x₁.data.reg .edi = L.ThreadFinish ∧
      x₁.data.memory (L.stackTop t + 4 - 4 - 4) = arg := by
  obtain ⟨first, second, -⟩ := Layout.place_pushed (L := L) (t := t)
  have top : (L.stackTop t + 4 - 4).toNat % 4 = 0 := by
    rw [add_sub_cancel_right]
    exact Layout.stackTop_aligned
  have next : (L.stackTop t + 4 - 4 - 4).toNat % 4 = 0 := aligned_sub top (by decide)
  have esp : x.data.reg .esp = L.stackTop t + 4 := by rw [reg]; rfl
  have edx : x.data.reg .edx = arg := by rw [reg]; rfl
  obtain ⟨d, executes, d_eq⟩ : ∃ d, x.data.execAll
      [.pushl .ebp, .movl (.reg .esp) (.reg .ebp), .pushl .edx] = some d ∧
      d = ⟨Function.update (Function.update (Function.update x.data.reg .esp
          (L.stackTop t + 4 - 4)) .ebp (L.stackTop t + 4 - 4)) .esp (L.stackTop t + 4 - 4 - 4),
        Function.update (Function.update x.data.memory (L.stackTop t + 4 - 4) (x.data.reg .ebp))
          (L.stackTop t + 4 - 4 - 4) arg⟩ := by
    refine ⟨_, ?_, rfl⟩
    simp only [Data.execAll, Data.exec, Data.push, Data.setReg, Data.read, Data.write, Data.store,
      esp, edx, top, next, if_true, Option.bind_some, Function.update_self, ne_eq, reduceCtorEq,
      not_false_eq_true, Function.update_of_ne]
  have root : Loaded L.code x.eip
      ([Op.pushl .ebp, .movl (.reg .esp) (.reg .ebp), .pushl .edx].map Instr.op ++
        threadRootCode.drop 3) := by
    rw [eip]
    exact L.root_loaded
  obtain ⟨a, runs, loaded⟩ := run_ops root executes
  refine ⟨⟨d, a⟩, runs, ?_, loaded, ?_, ?_, ?_, ?_, ?_⟩
  · intro b outside
    have others : b ≠ L.stackTop t + 4 - 4 ∧ b ≠ L.stackTop t + 4 - 4 - 4 := by
      constructor
      · rintro rfl
        exact outside first
      · rintro rfl
        exact outside second
    simp only [d_eq, Function.update_of_ne others.1, Function.update_of_ne others.2]
  · simp [d_eq]
  · simp [d_eq, reg, Coroutines.fresh]
  · simp [d_eq, reg, Coroutines.fresh]
  · simp [d_eq, reg, Coroutines.fresh]
  · simp [d_eq]

omit [DecidableEq Thread] in
/-- A call from `ThreadRoot`: it takes one word more of the stack. -/
theorem threadRoot_call {x : State} {r : Reg} {is : List Instr}
    (loaded : Loaded L.code x.eip (.call r :: is))
    (esp : x.data.reg .esp = L.stackTop t + 4 - 4 - 4) :
    ∃ x' : State, x.step L.code = some x' ∧ L.OwnStack t x x' ∧ x'.eip = x.data.reg r ∧
      Loaded L.code (x'.data.memory (x'.data.reg .esp)) is ∧
      x'.data.reg .esp = L.stackTop t + 4 - 4 - 4 - 4 ∧
      (∀ r', r' ≠ .esp → x'.data.reg r' = x.data.reg r') ∧
      x'.data.memory (L.stackTop t + 4 - 4 - 4) = x.data.memory (L.stackTop t + 4 - 4 - 4) := by
  obtain ⟨-, -, third⟩ := Layout.place_pushed (L := L) (t := t)
  have aligned : (x.data.reg .esp).toNat % 4 = 0 := by
    rw [esp, add_sub_cancel_right]
    exact aligned_sub Layout.stackTop_aligned (by decide)
  obtain ⟨back, rest, calls⟩ := step_call (d := x.data) loaded aligned
  refine ⟨_, calls, ?_, rfl, ?_, ?_, ?_, ?_⟩
  · intro b outside
    have other : b ≠ x.data.reg .esp - 4 := by
      rintro rfl
      rw [esp] at outside
      exact outside third
    exact Function.update_of_ne other _ _
  · simpa [Data.setReg] using rest
  · simp [esp]
  · intro r' other
    exact Function.update_of_ne other _ _
  · have other : L.stackTop t + 4 - 4 - 4 ≠ x.data.reg .esp - 4 := by
      intro same
      rw [esp] at same
      exact absurd (sub_eq_self.mp same.symm) (by decide)
    simp only [Function.update_of_ne other]

theorem fresh_starts {x : State} (reg : x.data.reg = (Coroutines.fresh L t func arg memory).reg)
    (eip : x.eip = L.ThreadRoot) : L.Starts t func arg x := by
  obtain ⟨x₀, pushes, own₀, loaded₀, esp₀, ecx, esi, edi, slot⟩ := threadRoot_pushes reg eip
  obtain ⟨x₁, call₁, own₁, eip₁, loaded₁, esp₁, reg₁, slot₁⟩ := threadRoot_call loaded₀ esp₀
  have runs : x.run L.code 4 = some x₁ := by
    rw [show 4 = 3 + 1 from rfl, run_add, pushes]
    simp only [Option.bind_some, State.run, call₁]
  have own : L.OwnStack t x x₁ := fun a outside => (own₁ a outside).trans (own₀ a outside)
  refine ⟨x₁, runs, own, eip₁.trans ecx, ?_⟩
  intro x₂ ret₁
  have esp₂ : x₂.data.reg .esp = L.stackTop t + 4 - 4 - 4 := by
    rw [ret₁.esp, esp₁, sub_add_cancel]
  have slot₂ : x₂.data.memory (L.stackTop t + 4 - 4 - 4) = arg := by
    have above : x₁.data.reg .esp + BitVec.ofNat 32 (4 * 1) = L.stackTop t + 4 - 4 - 4 := by
      rw [esp₁]
      exact sub_add_cancel _ _
    have kept := ret₁.stack 1 (by decide) (by decide)
    rw [above] at kept
    rw [kept (Layout.place_pushed (L := L) (t := t)).2.1, slot₁, slot]
  have loaded₂ : Loaded L.code x₂.eip (threadRootCode.drop 4) := by
    rw [ret₁.eip]
    exact loaded₁
  obtain ⟨x₃, call₃, own₃, eip₃, loaded₃, esp₃, reg₃, slot₃⟩ := threadRoot_call loaded₂ esp₂
  refine ⟨x₃, call₃, own₃, ?_, ?_, ?_⟩
  · rw [eip₃, ret₁.saved .esi (by simp), reg₁ .esi (by decide)]
    exact esi
  · rw [esp₃, sub_add_cancel, slot₃]
    exact slot₂
  · intro x₄ ret₃
    have esp₄ : x₄.data.reg .esp = L.stackTop t + 4 - 4 - 4 := by
      rw [ret₃.esp, esp₃, sub_add_cancel]
    have loaded₄ : Loaded L.code x₄.eip (threadRootCode.drop 5) := by
      rw [ret₃.eip]
      exact loaded₃
    obtain ⟨x₅, call₅, own₅, eip₅, -⟩ := threadRoot_call loaded₄ esp₄
    refine ⟨x₅, call₅, own₅, ?_⟩
    rw [eip₅, ret₃.saved .edi (by simp), reg₃ .edi (by decide), ret₁.saved .edi (by simp),
      reg₁ .edi (by decide)]
    exact edi

/-- A thread that does not run keeps its context. -/
theorem Coroutines.run_waits {es : List (SwitchEvent Thread)} {c : Context}
    {s s' : Coroutines Thread} (waits : ∀ e ∈ es, e ≠ .switch t ∧ e ≠ .delete t)
    (other : t ≠ s.current) (suspended : s.context t = some c)
    (run : (coroutineMachine L).run es s = some s') : t ≠ s'.current ∧ s'.context t = some c := by
  induction es generalizing s with
  | nil =>
    cases run
    exact ⟨other, suspended⟩
  | cons e es ih =>
    obtain ⟨mid, step, run⟩ := Option.bind_eq_some_iff.mp run
    obtain ⟨stays, kept⟩ := waits e List.mem_cons_self
    have later := ih (s := mid) fun e he => waits e (List.mem_cons_of_mem _ he)
    cases e with
    | work reg eip memory =>
      cases step
      refine later other ?_ run
      simpa [Function.update_of_ne other] using suspended
    | fork u func arg memory =>
      obtain ⟨free, step⟩ := Option.ite_none_right_eq_some.mp step
      cases step
      refine later other ?_ run
      have apart : t ≠ u := by
        rintro rfl
        rw [suspended] at free
        cases free
      simpa [Function.update_of_ne apart] using suspended
    | delete u =>
      obtain ⟨-, step⟩ := Option.ite_none_right_eq_some.mp step
      cases step
      refine later other ?_ run
      have apart : t ≠ u := by
        rintro rfl
        exact kept rfl
      simpa [Function.update_of_ne apart] using suspended
    | switch u =>
      obtain ⟨own, -, step⟩ := Option.bind_eq_some_iff.mp step
      obtain ⟨-, step⟩ := Option.ite_none_right_eq_some.mp step
      cases step
      refine later ?_ ?_ run
      · rintro rfl
        exact stays rfl
      · simpa [Function.update_of_ne other] using suspended

/-- A thread that was forked calls `ThreadBegin`, its function and `ThreadFinish`, whenever it is
first switched to, and whatever the other threads did before. -/
theorem forked_thread_starts (s : Processor Thread) (reached : (processorMachine L).Reachable s)
    (t : Thread) (func arg : Word) (memory : Word → Word) (es : List (SwitchEvent Thread))
    (waits : ∀ e ∈ es, e ≠ .switch t ∧ e ≠ .delete t) (before after : Processor Thread)
    (run : (processorMachine L).run (.fork t func arg memory :: es) s = some before)
    (switched : (processorMachine L).next (.switch t) before = some after) :
    after.current = t ∧ L.Starts t func arg after.x := by
  have inv := Processor.Invariant.of_reachable reached
  obtain ⟨forked, fork, run⟩ := Option.bind_eq_some_iff.mp run
  obtain ⟨inv₁, forks⟩ := inv.fork_refines fork
  have runs := inv₁.run_refines es
  rw [run] at runs
  -- The new thread waits with its first context.
  obtain ⟨free, forks⟩ := Option.ite_none_right_eq_some.mp forks
  have other : t ≠ s.current := by
    rintro rfl
    simp [Processor.coroutines, inv.current] at free
  have current : (forked.coroutines L).current = s.current := by
    rw [← Option.some.inj forks]
    rfl
  have context : (forked.coroutines L).context t = some (Coroutines.fresh L t func arg memory) := by
    rw [← Option.some.inj forks]
    simp
  obtain ⟨apart, context⟩ := Coroutines.run_waits waits (by rw [current]; exact other) context
    runs.symm
  have later : (processorMachine L).Reachable forked := reached.step trivial fork
  have inv₂ : before.Invariant L := .of_reachable (later.run es run)
  have switches := (inv₂.next_refines (.switch t)).1
  obtain ⟨⟨calls, live⟩, -⟩ := Option.ite_none_right_eq_some.mp switched
  obtain ⟨after', step, -, switches⟩ := inv₂.switch_refines calls live
  cases switched.symm.trans step
  obtain ⟨own, -, switches⟩ := Option.bind_eq_some_iff.mp switches
  obtain ⟨-, switches⟩ := Option.ite_none_right_eq_some.mp switches
  have same := Option.some.inj switches
  have arrived : after.current = t := (congrArg Coroutines.current same).symm
  have loaded : (after.coroutines L).context t = some (Coroutines.fresh L t func arg memory) := by
    rw [← same]
    simpa [Function.update_of_ne apart] using context
  refine ⟨arrived, ?_⟩
  have alive : after.live t = true := by
    by_contra dead
    simp [Processor.coroutines, dead] at loaded
  have registers := Option.some.inj (by simpa [Processor.coroutines, arrived, alive] using loaded)
  exact fresh_starts (congrArg Context.reg registers) (congrArg Context.eip registers)

end System

theorem forked_thread_starts_demo :
    ∃ before after,
      (processorMachine demoLayout).run (demoRun.take 2) demoStart = some before ∧
      (processorMachine demoLayout).next (.switch true) before = some after ∧
      after.current = true ∧ demoLayout.Starts true 0x5000 7 after.x := by
  have reached : (processorMachine demoLayout).Reachable demoStart := .init demoStart_init
  have goes : ((processorMachine demoLayout).run (demoRun.take 3) demoStart).isSome := by
    rw [← Option.isSome_map (f := Processor.coroutines demoLayout),
      (Processor.Invariant.of_reachable reached).run_refines]
    decide +kernel
  obtain ⟨after, run⟩ := Option.isSome_iff_exists.mp goes
  obtain ⟨forked, fork, run⟩ := Option.bind_eq_some_iff.mp run
  obtain ⟨before, work, run⟩ := Option.bind_eq_some_iff.mp run
  obtain ⟨after', switched, last⟩ := Option.bind_eq_some_iff.mp run
  have first : (processorMachine demoLayout).run (demoRun.take 2) demoStart = some before :=
    Option.bind_eq_some_iff.mpr ⟨forked, fork, Machine.run_one work⟩
  exact ⟨before, after', first, switched, forked_thread_starts demoStart reached true 0x5000 7 _
    [demoWork false true 5 0x300] (by simp [demoWork]) before after' first switched⟩

end NachOS.Threads
