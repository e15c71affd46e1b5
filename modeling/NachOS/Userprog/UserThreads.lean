import NachOS.Machine.LoadDelay
import NachOS.Threads.ReadyList
import NachOS.Userprog.SpaceTranslate

/-!
# User programs on several threads (threads/scheduler.cc:104-151, threads/thread.cc:375-396)

There is one set of user registers in the machine and one page table register, and any number
of threads that run user programs. `Scheduler::Run` saves the registers of the thread that it
takes the processor from, if that thread has an address space, and loads those of the thread
that comes back from `SWITCH`; a handler that fires in between (`CheckIfDue`) also ends the
load delay. In the machine below every thread has registers of its own, and nothing is ever
saved or loaded. The two run alike, whichever thread runs when.

Main memory and the page tables themselves are shared: all frames are everybody's.
-/
namespace NachOS.Userprog
open NachOS.Lib NachOS.Mips NachOS.Threads

/-- What a user program finds in the machine. -/
structure UserState where
  registers : Registers
  /-- The `AddrSpace` whose table `machine->pageTable` is. -/
  pageTable : Option Nat
  pageTableSize : Word

/-- The memory of the machine and the `AddrSpace` objects. -/
structure Spaces where
  mainMemory : Buf
  /-- The objects are numbered in the order of their allocation. -/
  made : Nat
  space : Nat → AddrSpace

namespace Spaces

/-- `new AddrSpace` and `Load`, which leave some table and some contents of memory. -/
def make (m : Spaces) (space : AddrSpace) (mainMemory : Buf) : Spaces where
  mainMemory := mainMemory
  made := m.made + 1
  space := Function.update m.space m.made space

/-- What an instruction leaves in memory and in the first `size` entries of the table. -/
def written (m : Spaces) (a size : Nat) (memory : Memory) : Spaces :=
  let table := memory.mmu.entries ++ (m.space a).pageTable.drop size
  { m with
    mainMemory := memory.mainMemory
    space := Function.update m.space a { m.space a with pageTable := table } }

end Spaces

namespace UserState

/-- `Machine::DelayedLoad(0, 0)`. -/
def delayedLoad (u : UserState) : Option UserState :=
  ((u.registers.delayedLoad 0 0).toOption).map fun registers => { u with registers }

/-- `AddrSpace::InitRegisters` and `AddrSpace::RestoreState`. -/
def start (m : Spaces) (a : Nat) : UserState where
  registers := initRegisters (m.space a).numPages
  pageTable := some a
  pageTableSize := (m.space a).numPages

/-- `Machine::OneInstruction`, up to the call of `ExceptionHandler` if it raises one. -/
def oneInstruction (big : Bool) (u : UserState) (m : Spaces) :
    Option (Bool × UserState × Spaces) :=
  match u.pageTable with
  | none => none
  | some a =>
    let size := u.pageTableSize.toNat
    let mmu := Mmu.pageTable ((m.space a).pageTable.take size)
    match State.oneInstruction ⟨u.registers, ⟨m.mainMemory, mmu, big⟩⟩ with
    | .ok (.next s) => some (false, { u with registers := s.registers }, m.written a size s.memory)
    | .ok (.exception _ s) =>
      some (true, { u with registers := s.registers }, m.written a size s.memory)
    | .error _ => none

/-- `Machine::WriteRegister`. -/
def writeRegister (u : UserState) (num : Fin 40) (value : Word) : UserState :=
  { u with registers := Function.update u.registers num value }

end UserState

inductive UserThreadEvent where
  /-- A step of the thread routines, of `OneTick` or of `Idle`. -/
  | kernel (e : KernelEvent)
  | newSpace (space : AddrSpace) (mainMemory : Buf)
  /-- `AddrSpace::Execute`, up to the call of `Machine::Run`. -/
  | execute (space : Nat)
  /-- One round in `Machine::Run`, up to the call of `OneTick` or of the exception handler. -/
  | oneInstruction
  /-- The exception handler writes its result or the program counters. -/
  | writeRegister (num : Fin 40) (value : Word)
  /-- The exception handler writes into memory. -/
  | writeMemory (mainMemory : Buf)

/-- The registers that the exception handler writes. -/
def handlerRegisters : List Nat := [2, PrevPCReg.val, PCReg.val, NextPCReg.val]

/-- `CheckIfDue` finds an interrupt that is due. -/
def Fires : KernelEvent → Prop
  | .tick (some _) | .idle (some _) => True
  | _ => False

instance (e : KernelEvent) : Decidable (Fires e) := by
  unfold Fires
  split <;> infer_instance

/-- `OneTick` follows an instruction that raised no exception. -/
def afterInstruction (raised : Bool) (k : Kernel) : Option Kernel :=
  if raised then some k else schedulerMachine.next .instruction k

/-- The kernel, the machine, and what the threads have saved. -/
structure UserSystem where
  kernel : Kernel
  machine : UserState
  shared : Spaces
  /-- The members `userRegisters` and `space` of each `Thread` object. -/
  userRegisters : Nat → Registers
  space : Nat → Option Nat

namespace UserSystem

def current (s : UserSystem) : Nat := s.kernel.currentThread

/-- `Scheduler::Run` before the `SWITCH`. -/
def switchOut (s : UserSystem) : UserSystem :=
  let saved := saveUserState s.machine.registers
  { s with userRegisters :=
      if (s.space s.current).isSome then Function.update s.userRegisters s.current saved
      else s.userRegisters }

/-- `Scheduler::Run` after the `SWITCH`, in the thread that was switched in. A thread that
starts comes to `ThreadRoot` instead. -/
def switchIn (s : UserSystem) : UserSystem :=
  { s with machine :=
      if s.kernel.frame s.current = .fresh then s.machine
      else
        match s.space s.current with
        | none => s.machine
        | some a =>
          { registers := restoreUserState s.machine.registers (s.userRegisters s.current)
            pageTable := some a
            pageTableSize := (s.shared.space a).numPages } }

/-- The part of `Run` that a step from `s.kernel` to `kernel` goes through. -/
def scheduled (s : UserSystem) (e : KernelEvent) (kernel : Kernel) : UserSystem :=
  if kernel.control = .switched then { s.switchOut with kernel }
  else if e = .resume then { s.switchIn with kernel }
  else { s with kernel }

def delayedLoad (s : UserSystem) : Option UserSystem :=
  s.machine.delayedLoad.map fun machine => { s with machine }

/-- The code of a user program, or of the kernel on its behalf, is running. -/
def InProgram (s : UserSystem) : Prop :=
  s.kernel.control = .body ∧ (s.space s.current).isSome

instance (s : UserSystem) : Decidable s.InProgram :=
  inferInstanceAs (Decidable (_ ∧ _))

def next (big : Bool) : UserThreadEvent → UserSystem → Option UserSystem
  | .kernel e, s =>
    (schedulerMachine.next e s.kernel).bind fun kernel =>
      (if Fires e then s.delayedLoad else some s).map fun s => s.scheduled e kernel
  | .newSpace space mainMemory, s =>
    if s.kernel.control = .body then some { s with shared := s.shared.make space mainMemory }
    else none
  | .execute a, s =>
    if s.kernel.control = .body ∧ a < s.shared.made then
      some { s with
        space := Function.update s.space s.current (some a)
        machine := .start s.shared a }
    else none
  | .oneInstruction, s =>
    if s.InProgram then
      (s.machine.oneInstruction big s.shared).bind fun r =>
        (afterInstruction r.1 s.kernel).map fun kernel =>
          { s with
            kernel
            machine := r.2.1
            shared := r.2.2 }
    else none
  | .writeRegister num value, s =>
    if s.InProgram ∧ num.val ∈ handlerRegisters then
      some { s with machine := s.machine.writeRegister num value }
    else none
  | .writeMemory mainMemory, s =>
    if s.kernel.control = .body then some { s with shared := { s.shared with mainMemory } }
    else none

end UserSystem

/-- The state in which no `AddrSpace` has been made. -/
def userSystem (big : Bool) : Machine UserSystem UserThreadEvent where
  init s := (∃ initialValue, s.kernel = .initial initialValue) ∧
    s.machine.registers = (fun _ => 0) ∧ s.shared.made = 0 ∧ s.space = fun _ => none
  next := UserSystem.next big

/-- Every thread with a user program has a machine of its own. -/
@[ext] structure OwnSystem where
  kernel : Kernel
  own : Nat → Option UserState
  shared : Spaces

namespace OwnSystem

def current (s : OwnSystem) : Nat := s.kernel.currentThread

def setOwn (s : OwnSystem) (u : UserState) : OwnSystem :=
  { s with own := Function.update s.own s.current (some u) }

/-- The code of a user program, or of the kernel on its behalf, is running. -/
def InProgram (s : OwnSystem) : Prop :=
  s.kernel.control = .body ∧ (s.own s.current).isSome

instance (s : OwnSystem) : Decidable s.InProgram :=
  inferInstanceAs (Decidable (_ ∧ _))

def delayedLoad (s : OwnSystem) : Option OwnSystem :=
  match s.own s.current with
  | none => some s
  | some u => u.delayedLoad.map s.setOwn

def next (big : Bool) : UserThreadEvent → OwnSystem → Option OwnSystem
  | .kernel e, s =>
    (schedulerMachine.next e s.kernel).bind fun kernel =>
      (if Fires e then s.delayedLoad else some s).map fun s => { s with kernel }
  | .newSpace space mainMemory, s =>
    if s.kernel.control = .body then some { s with shared := s.shared.make space mainMemory }
    else none
  | .execute a, s =>
    if s.kernel.control = .body ∧ a < s.shared.made then some (s.setOwn (.start s.shared a))
    else none
  | .oneInstruction, s =>
    if s.InProgram then
      (s.own s.current).bind fun u =>
        (u.oneInstruction big s.shared).bind fun r =>
          (afterInstruction r.1 s.kernel).map fun kernel =>
            { s.setOwn r.2.1 with
              kernel
              shared := r.2.2 }
    else none
  | .writeRegister num value, s =>
    if s.InProgram ∧ num.val ∈ handlerRegisters then
      (s.own s.current).map fun u => s.setOwn (u.writeRegister num value)
    else none
  | .writeMemory mainMemory, s =>
    if s.kernel.control = .body then some { s with shared := { s.shared with mainMemory } }
    else none

end OwnSystem

def ownSystem (big : Bool) : Machine OwnSystem UserThreadEvent where
  init s := (∃ initialValue, s.kernel = .initial initialValue) ∧
    s.shared.made = 0 ∧ s.own = fun _ => none
  next := OwnSystem.next big

namespace UserSystem

/-- Thread `t` is not on the processor. -/
def Away (s : UserSystem) (t : Nat) : Prop := t ≠ s.current ∨ s.kernel.control = .switched

instance (s : UserSystem) (t : Nat) : Decidable (s.Away t) := inferInstanceAs (Decidable (_ ∨ _))

/-- What thread `t` finds in the machine when it runs with space `a`. -/
def view (s : UserSystem) (t a : Nat) : UserState :=
  if s.Away t then ⟨s.userRegisters t, some a, (s.shared.space a).numPages⟩ else s.machine

/-- The machine that each thread with an address space thinks to have. -/
def owned (s : UserSystem) : OwnSystem where
  kernel := s.kernel
  own t := (s.space t).map (s.view t)
  shared := s.shared

/-- What was saved for a thread is complete, and `Run` will load it. -/
structure Saved (s : UserSystem) (t : Nat) : Prop where
  frame : s.kernel.frame t ≠ .fresh
  registers : (s.userRegisters t).AtBoundary

/-- The thread on the processor has its own table, and a frame when it sleeps. -/
structure Present (s : UserSystem) (t a : Nat) : Prop where
  pageTable : s.machine.pageTable = some a
  pageTableSize : s.machine.pageTableSize = (s.shared.space a).numPages
  asleep : s.kernel.InSleep → s.kernel.frame t ≠ .fresh

structure UserThread (s : UserSystem) (t a : Nat) : Prop where
  live : t < s.kernel.allocated
  begun : s.kernel.status t ≠ some .justCreated
  made : a < s.shared.made
  away : s.Away t → s.Saved t
  present : ¬ s.Away t → s.Present t a

structure Invariant (s : UserSystem) : Prop where
  kernel : schedulerMachine.Reachable s.kernel
  registers : s.machine.registers.AtBoundary
  threads : ∀ t a, s.space t = some a → s.UserThread t a

variable {s s' : UserSystem} {t a : Nat} {big : Bool} {e : KernelEvent} {kernel : Kernel}

theorem zero_atBoundary : Registers.AtBoundary fun _ => 0 := by
  refine ⟨rfl, ?_⟩
  unfold Registers.SlotInRange
  decide

theorem delayedLoad_eq {u : UserState} (boundary : u.registers.AtBoundary) :
    u.delayedLoad = some { u with registers := u.registers.loaded 0 0 } := by
  unfold UserState.delayedLoad
  rw [Registers.delayedLoad_eq boundary.slot]
  rfl

theorem not_away (running : s.kernel.control ≠ .switched) : ¬ s.Away s.current := by
  rintro (other | switched)
  · exact other rfl
  · exact running switched

theorem owned_here (running : s.kernel.control ≠ .switched) :
    s.owned.own s.current = (s.space s.current).map fun _ => s.machine := by
  cases space : s.space s.current with
  | none => simp only [owned, space, Option.map_none]
  | some a => simp only [owned, space, Option.map_some, view, if_neg (not_away running)]

/-- The sizes of the address spaces that are in use do not change. -/
def KeepsSizes (s : UserSystem) (m : Spaces) : Prop :=
  s.shared.made ≤ m.made ∧ ∀ a < s.shared.made, (m.space a).numPages = (s.shared.space a).numPages

theorem KeepsSizes.refl (s : UserSystem) : s.KeepsSizes s.shared :=
  ⟨Nat.le_refl _, fun _ _ => rfl⟩

/-- The thread on the processor stays there, and only it sees another machine. -/
theorem own_update (machine : UserState) {m : Spaces} (inv : s.Invariant)
    (currentThread : kernel.currentThread = s.current)
    (control : kernel.control ≠ .switched) (sizes : s.KeepsSizes m) :
    (owned { s with kernel, machine, shared := m }).own =
      Function.update s.owned.own s.current ((s.space s.current).map fun _ => machine) := by
  funext t
  have away : Away { s with kernel, machine, shared := m } t ↔ t ≠ s.current := by
    simp only [Away, current, currentThread, control, or_false]
  by_cases same : t = s.current
  · subst same
    rw [Function.update_self]
    cases space : s.space s.current with
    | none => simp only [owned, space, Option.map_none]
    | some a =>
      simp only [owned, space, Option.map_some, view]
      rw [if_neg fun gone => away.mp gone rfl]
  · rw [Function.update_of_ne same]
    cases space : s.space t with
    | none => simp only [owned, space, Option.map_none]
    | some a =>
      have size := sizes.2 a (inv.threads t a space).made
      simp only [owned, space, Option.map_some, view]
      rw [if_pos (away.mpr same), if_pos (show s.Away t from .inl same), size]

/-- The machine works with the table of the thread on the processor. -/
def Loaded (s : UserSystem) (machine : UserState) (m : Spaces) : Prop :=
  ∀ a, s.space s.current = some a →
    machine.pageTable = some a ∧ machine.pageTableSize = (m.space a).numPages

theorem Invariant.loaded {m : Spaces} (inv : s.Invariant) (running : s.kernel.control ≠ .switched)
    (sizes : s.KeepsSizes m) : s.Loaded s.machine m := by
  intro a space
  have thread := inv.threads s.current a space
  have present := thread.present (not_away running)
  exact ⟨present.pageTable, present.pageTableSize.trans (sizes.2 a thread.made).symm⟩

/-- The thread on the processor goes on in its address space. -/
theorem Invariant.update {machine : UserState} {m : Spaces} (inv : s.Invariant)
    (reached : schedulerMachine.Reachable kernel) (adds : s.kernel.Adds kernel)
    (control : kernel.control ≠ .switched) (registers : machine.registers.AtBoundary)
    (loaded : s.Loaded machine m) (sizes : s.KeepsSizes m) :
    Invariant { s with kernel, machine, shared := m } := by
  refine ⟨reached, registers, ?_⟩
  intro t a space
  have before := inv.threads t a space
  have away : Away { s with kernel, machine, shared := m } t ↔ t ≠ s.current := by
    simp only [Away, current, adds.currentThread, control, or_false]
  have entered (frame : s.kernel.frame t ≠ .fresh) : kernel.frame t ≠ .fresh := by
    intro now
    rcases adds.steady.frame t before.live now with fresh | created
    · exact frame fresh
    · exact before.begun created
  refine {
    live := Nat.lt_of_lt_of_le before.live adds.steady.allocated
    begun := fun created => before.begun (adds.steady.status t before.live created)
    made := Nat.lt_of_lt_of_le before.made sizes.1
    away := ?_
    present := ?_ }
  · intro gone
    have saved := before.away (.inl (away.mp gone))
    exact ⟨entered saved.frame, saved.registers⟩
  · intro stays
    have same : t = s.current := not_not.mp fun other => stays (away.mpr other)
    subst same
    obtain ⟨pageTable, pageTableSize⟩ := loaded a space
    refine ⟨pageTable, pageTableSize, ?_⟩
    intro asleep
    rcases adds.asleep asleep with asleep | left
    · refine entered ?_
      by_cases gone : s.Away s.current
      · exact (before.away gone).frame
      · exact (before.present gone).asleep asleep
    · exact (left before.live).1

/-- The thread whose code is running has begun. -/
theorem Invariant.begun (inv : s.Invariant) (body : s.kernel.control = .body) :
    s.current < s.kernel.allocated ∧ s.kernel.status s.current ≠ some .justCreated := by
  have invariant := Kernel.Invariant.of_reachable inv.kernel
  have running : s.kernel.status s.current = some .running :=
    (invariant.executing (.inl body)).1.current
  refine ⟨invariant.core.live_lt ?_, ?_⟩
  · rw [running]
    simp
  · rw [running]
    simp

/-- `Run` saves what the thread finds in the machine. -/
theorem scheduled_out (inv : s.Invariant) (reached : schedulerMachine.Reachable kernel)
    (running : s.kernel.control ≠ .switched) (dispatches : s.kernel.Dispatches kernel) :
    owned { s.switchOut with kernel } = { s.owned with kernel } ∧
      Invariant { s.switchOut with kernel } := by
  have steady := dispatches.steady
  have away (t : Nat) : Away { s.switchOut with kernel } t := .inr dispatches.control
  have saves (t a : Nat) (space : s.space t = some a) :
      s.switchOut.userRegisters t = if s.Away t then s.userRegisters t
        else s.machine.registers := by
    have here : s.Away t ↔ t ≠ s.current := by
      simp only [Away, running, or_false]
    unfold switchOut
    by_cases same : t = s.current
    · subst same
      rw [if_neg (not_away running)]
      simp only [space, Option.isSome_some, if_true, Function.update_self]
      rfl
    · rw [if_pos (here.mpr same)]
      simp only
      split
      next => rw [Function.update_of_ne same]
      next => rfl
  constructor
  · ext1
    · rfl
    · funext t
      change (s.space t).map (view { s.switchOut with kernel } t) = (s.space t).map (s.view t)
      cases space : s.space t with
      | none => rfl
      | some a =>
        have thread := inv.threads t a space
        simp only [Option.map_some, view]
        rw [if_pos (away t), saves t a space]
        split
        next => rfl
        next here =>
          have present := thread.present here
          rw [← present.pageTable]
          change some (UserState.mk _ _ (s.shared.space a).numPages) = _
          rw [← present.pageTableSize]
    · rfl
  · refine ⟨reached, inv.registers, ?_⟩
    intro t a space
    have thread := inv.threads t a space
    refine {
      live := Nat.lt_of_lt_of_le thread.live steady.allocated
      begun := fun created => thread.begun (steady.status t thread.live created)
      made := thread.made
      away := fun _ => ?_
      present := fun stays => absurd (away t) stays }
    have entered (frame : s.kernel.frame t ≠ .fresh) : kernel.frame t ≠ .fresh := by
      intro now
      rcases steady.frame t thread.live now with fresh | created
      · exact frame fresh
      · exact thread.begun created
    constructor
    · change kernel.frame t ≠ .fresh
      by_cases gone : s.Away t
      · exact entered (thread.away gone).frame
      · have same : t = s.current := not_not.mp fun other => gone (.inl other)
        rcases dispatches.left with asleep | left
        · exact entered ((thread.present gone).asleep asleep)
        · rw [same]
          exact left
    · change (s.switchOut.userRegisters t).AtBoundary
      rw [saves t a space]
      split
      next gone => exact (thread.away gone).registers
      next => exact inv.registers

/-- `Run` loads what the thread had. -/
theorem scheduled_in (inv : s.Invariant) (reached : schedulerMachine.Reachable kernel)
    (switched : s.kernel.control = .switched) (control : kernel.control ≠ .switched)
    (adds : s.kernel.Adds kernel) :
    owned { s.switchIn with kernel } = { s.owned with kernel } ∧
      Invariant { s.switchIn with kernel } := by
  have gone (t : Nat) : s.Away t := .inr switched
  have loads (a : Nat) (space : s.space s.current = some a) :
      s.switchIn.machine = s.view s.current a ∧ (s.userRegisters s.current).AtBoundary := by
    have saved := (inv.threads s.current a space).away (gone _)
    refine ⟨?_, saved.registers⟩
    simp only [switchIn, view, if_neg saved.frame, if_pos (gone _), space,
      State.restoreUserState_eq]
  have machine : s.space s.current = none → s.switchIn.machine = s.machine := by
    intro space
    simp only [switchIn, space, ite_self]
  constructor
  · ext1
    · rfl
    · have update := own_update s.switchIn.machine inv adds.currentThread control
        (.refl s)
      refine update.trans (Function.update_eq_self_iff.mpr ?_)
      cases space : s.space s.current with
      | none => simp only [owned, space, Option.map_none]
      | some a => simp only [owned, space, Option.map_some, (loads a space).1]
    · rfl
  · refine inv.update reached adds control ?_ ?_ (.refl s)
    · cases space : s.space s.current with
      | none =>
        rw [machine space]
        exact inv.registers
      | some a =>
        obtain ⟨loads, boundary⟩ := loads a space
        rw [loads, view, if_pos (gone _)]
        exact boundary
    · intro a space
      rw [(loads a space).1, view, if_pos (gone _)]
      exact ⟨rfl, rfl⟩

/-- A step of the kernel changes nothing for the user programs. -/
theorem scheduled_owned (inv : s.Invariant)
    (step : schedulerMachine.next e s.kernel = some kernel) :
    (s.scheduled e kernel).owned = { s.owned with kernel } ∧
      (s.scheduled e kernel).Invariant := by
  have reached : schedulerMachine.Reachable kernel := inv.kernel.step trivial step
  unfold scheduled
  rcases Kernel.step_cases step with ⟨other, running, dispatches⟩ | ⟨resumes, control, adds, -⟩
  · rw [if_pos dispatches.control]
    exact scheduled_out inv reached running dispatches
  · rw [if_neg control]
    by_cases resume : e = .resume
    · rw [if_pos resume]
      exact scheduled_in inv reached (resumes.mp resume) control adds
    · have running : s.kernel.control ≠ .switched := fun switched => resume (resumes.mpr switched)
      rw [if_neg resume]
      constructor
      · ext1
        · rfl
        · have update := own_update s.machine inv adds.currentThread control (.refl s)
          refine update.trans (Function.update_eq_self_iff.mpr ?_)
          exact (owned_here running).symm
        · rfl
      · exact inv.update reached adds control inv.registers (inv.loaded running (.refl s)) (.refl s)

/-- Only the program on the processor sees another machine. -/
theorem owned_program {machine : UserState} {m : Spaces} (inv : s.Invariant)
    (program : (s.space s.current).isSome) (currentThread : kernel.currentThread = s.current)
    (control : kernel.control ≠ .switched) (sizes : s.KeepsSizes m) :
    owned { s with kernel, machine, shared := m } =
      { s.owned.setOwn machine with
        kernel
        shared := m } := by
  ext1
  · rfl
  · obtain ⟨a, space⟩ := Option.isSome_iff_exists.mp program
    rw [own_update _ inv currentThread control sizes, space]
    rfl
  · rfl

/-- Without a program on the processor nobody sees what happens to the machine. -/
theorem owned_unseen {machine : UserState} {m : Spaces} (inv : s.Invariant)
    (running : s.kernel.control ≠ .switched)
    (unseen : s.space s.current = none ∨ machine = s.machine) (sizes : s.KeepsSizes m) :
    owned { s with machine, shared := m } = { s.owned with shared := m } := by
  ext1
  · rfl
  · have update := own_update machine inv rfl running sizes
    refine update.trans (Function.update_eq_self_iff.mpr ?_)
    rw [owned_here running]
    rcases unseen with space | rfl
    · rw [space]
      rfl
    · rfl
  · rfl

theorem owned_of_program (running : s.kernel.control ≠ .switched)
    (program : (s.space s.current).isSome) : s.owned.own s.owned.current = some s.machine := by
  obtain ⟨a, space⟩ := Option.isSome_iff_exists.mp program
  refine (owned_here running).trans ?_
  rw [space]
  rfl

theorem owned_of_kernel (space : s.space s.current = none) :
    s.owned.own s.owned.current = none := by
  change (s.space s.current).map _ = none
  rw [space]
  rfl

/-- A handler is about to be called. -/
theorem delayedLoad_owned (inv : s.Invariant) (running : s.kernel.control ≠ .switched) :
    ∃ s', s.delayedLoad = some s' ∧ s.owned.delayedLoad = some s'.owned ∧ s'.Invariant ∧
      s'.kernel = s.kernel := by
  have loaded := delayedLoad_eq inv.registers
  have kept : Invariant { s with
      machine := { s.machine with registers := s.machine.registers.loaded 0 0 } } :=
    inv.update inv.kernel (.refl _) running s.machine.registers.loaded_atBoundary
      (inv.loaded running (.refl s)) (.refl s)
  refine ⟨_, ?_, ?_, kept, rfl⟩
  · unfold delayedLoad
    rw [loaded]
    rfl
  · unfold OwnSystem.delayedLoad
    cases space : s.space s.current with
    | none =>
      rw [owned_of_kernel space]
      exact congrArg some (owned_unseen inv running (.inl space) (.refl s)).symm
    | some a =>
      have program : (s.space s.current).isSome := by
        rw [space]
        rfl
      rw [owned_of_program running program]
      simp only [loaded, Option.map_some]
      exact congrArg some (owned_program inv program rfl running (.refl s)).symm

/-- A step of both machines, or of neither. -/
def Refines (x : Option UserSystem) (y : Option OwnSystem) : Prop :=
  x.map owned = y ∧ ∀ s', x = some s' → s'.Invariant

theorem Refines.stuck : Refines none none :=
  ⟨rfl, fun _ stuck => by cases stuck⟩

theorem Refines.both {o : OwnSystem} (same : s'.owned = o) (inv : s'.Invariant) :
    Refines (some s') (some o) := by
  refine ⟨congrArg some same, ?_⟩
  intro s'' step
  cases step
  exact inv

theorem Refines.guard {p q : Prop} [Decidable p] [Decidable q] {x : Option UserSystem}
    {y : Option OwnSystem} (same : p ↔ q) (refines : p → Refines x y) :
    Refines (if p then x else none) (if q then y else none) := by
  by_cases h : p
  · rw [if_pos h, if_pos (same.mp h)]
    exact refines h
  · rw [if_neg h, if_neg fun h' => h (same.mpr h')]
    exact .stuck

theorem kernel_refines (inv : s.Invariant) :
    Refines (s.next big (.kernel e)) (s.owned.next big (.kernel e)) := by
  change Refines ((schedulerMachine.next e s.kernel).bind _)
    ((schedulerMachine.next e s.kernel).bind _)
  cases step : schedulerMachine.next e s.kernel with
  | none => exact .stuck
  | some kernel =>
    simp only [Option.bind_some]
    by_cases fires : Fires e
    · have running : s.kernel.control ≠ .switched := by
        rcases Kernel.step_cases step with ⟨-, running, -⟩ | ⟨resumes, -⟩
        · exact running
        · intro switched
          rw [resumes.mpr switched] at fires
          exact fires
      obtain ⟨s₁, fired, fired', kept, same⟩ := delayedLoad_owned inv running
      rw [← same] at step
      obtain ⟨same, kept⟩ := scheduled_owned kept step
      rw [if_pos fires, if_pos fires, fired, fired']
      exact .both same kept
    · obtain ⟨same, kept⟩ := scheduled_owned inv step
      rw [if_neg fires, if_neg fires]
      exact .both same kept

theorem oneInstruction_boundary {u u' : UserState} {m m' : Spaces} {raised : Bool}
    (boundary : u.registers.AtBoundary)
    (h : u.oneInstruction big m = some (raised, u', m')) :
    u'.registers.AtBoundary ∧ u'.pageTable = u.pageTable ∧ u'.pageTableSize = u.pageTableSize ∧
      ∃ a size memory, m' = m.written a size memory := by
  unfold UserState.oneInstruction at h
  split at h
  next => cases h
  next a _ =>
    simp only at h
    obtain ⟨e, done, inRange⟩ | ⟨which, badVAddr, memory, raises, -⟩ | fault :=
      State.oneInstruction_cases (s := ⟨u.registers, ⟨m.mainMemory,
        .pageTable ((m.space a).pageTable.take u.pageTableSize.toNat), big⟩⟩) boundary.slot
    · rw [done] at h
      cases h
      exact ⟨Registers.committed_atBoundary inRange, rfl, rfl, a, _, _, rfl⟩
    · rw [raises] at h
      cases h
      exact ⟨u.registers.loaded_atBoundary.update badVAddr (by decide) (by decide), rfl, rfl,
        a, _, _, rfl⟩
    · rw [fault] at h
      cases h

theorem written_sizes {a size : Nat} {memory : Memory} :
    s.KeepsSizes (s.shared.written a size memory) := by
  refine ⟨Nat.le_refl _, fun b _ => ?_⟩
  by_cases same : b = a
  · subst same
    simp only [Spaces.written, Function.update_self]
  · simp only [Spaces.written, Function.update_of_ne same]

theorem afterInstruction_adds {raised : Bool} (inv : s.Invariant) (body : s.kernel.control = .body)
    (h : afterInstruction raised s.kernel = some kernel) :
    schedulerMachine.Reachable kernel ∧ s.kernel.Adds kernel ∧ kernel.control ≠ .switched := by
  cases raised with
  | true =>
    cases h
    exact ⟨inv.kernel, .refl _, by simp [body]⟩
  | false =>
    have step : schedulerMachine.next .instruction s.kernel = some kernel := h
    refine ⟨inv.kernel.step trivial step, ?_⟩
    rcases Kernel.step_cases step with ⟨-, -, dispatches⟩ | ⟨-, control, adds, -⟩
    · simp only [schedulerMachine, Kernel.step, body, if_true] at step
      cases step
      cases dispatches.control
    · exact ⟨adds, control⟩

theorem inProgram_owned : s.InProgram ↔ s.owned.InProgram := by
  refine and_congr_right' ?_
  change _ ↔ ((s.space s.current).map _).isSome
  rw [Option.isSome_map]

theorem oneInstruction_refines (inv : s.Invariant) :
    Refines (s.next big .oneInstruction) (s.owned.next big .oneInstruction) := by
  refine .guard inProgram_owned ?_
  rintro ⟨body, program⟩
  have running : s.kernel.control ≠ .switched := by simp [body]
  rw [owned_of_program running program]
  change Refines _ ((s.machine.oneInstruction big s.shared).bind fun r =>
    (afterInstruction r.1 s.kernel).map _)
  cases done : s.machine.oneInstruction big s.shared with
  | none => exact .stuck
  | some r =>
    obtain ⟨raised, machine, shared⟩ := r
    obtain ⟨boundary, pageTable, pageTableSize, b, size, memory, rfl⟩ :=
      oneInstruction_boundary inv.registers done
    simp only [Option.bind_some]
    cases returns : afterInstruction raised s.kernel with
    | none => exact .stuck
    | some kernel =>
      obtain ⟨reached, adds, control⟩ := afterInstruction_adds inv body returns
      have loaded : s.Loaded machine (s.shared.written b size memory) := by
        intro a space
        obtain ⟨table, tableSize⟩ := inv.loaded running written_sizes a space
        exact ⟨pageTable.trans table, pageTableSize.trans tableSize⟩
      exact .both (owned_program inv program adds.currentThread control written_sizes)
        (inv.update reached adds control boundary loaded written_sizes)

/-- What the kernel does to memory and to the address spaces. -/
theorem shared_refines {m : Spaces} (inv : s.Invariant) (sizes : s.KeepsSizes m) :
    Refines (if s.kernel.control = .body then some { s with shared := m } else none)
      (if s.owned.kernel.control = .body then some { s.owned with shared := m } else none) := by
  refine .guard Iff.rfl fun body => ?_
  have running : s.kernel.control ≠ .switched := by simp [body]
  exact .both (owned_unseen inv running (.inr rfl) sizes)
    (inv.update inv.kernel (.refl _) running inv.registers (inv.loaded running sizes) sizes)

theorem make_sizes (space : AddrSpace) (mainMemory : Buf) :
    s.KeepsSizes (s.shared.make space mainMemory) := by
  refine ⟨Nat.le_succ _, fun a used => ?_⟩
  simp only [Spaces.make, Function.update_of_ne (Nat.ne_of_lt used)]

theorem writeRegister_refines {num : Fin 40} {value : Word} (inv : s.Invariant) :
    Refines (s.next big (.writeRegister num value))
      (s.owned.next big (.writeRegister num value)) := by
  refine .guard (and_congr_left' inProgram_owned) ?_
  rintro ⟨⟨body, program⟩, written⟩
  have running : s.kernel.control ≠ .switched := by simp [body]
  have others : num ≠ 0 ∧ num ≠ LoadReg := by
    revert written
    revert num
    decide
  rw [owned_of_program running program]
  exact .both (owned_program inv program rfl running (.refl s))
    (inv.update inv.kernel (.refl _) running (inv.registers.update value others.1 others.2)
      (inv.loaded running (.refl s)) (.refl s))

theorem execute_refines (inv : s.Invariant) :
    Refines (s.next big (.execute a)) (s.owned.next big (.execute a)) := by
  refine .guard Iff.rfl ?_
  rintro ⟨body, made⟩
  have running : s.kernel.control ≠ .switched := by simp [body]
  refine .both ?_ ⟨inv.kernel, initRegisters_atBoundary _, ?_⟩
  · ext1
    · rfl
    · funext t
      change (Function.update s.space s.current (some a) t).map _ =
        Function.update s.owned.own s.current _ t
      by_cases same : t = s.current
      · subst same
        rw [Function.update_self, Function.update_self, Option.map_some]
        exact congrArg some (if_neg (not_away running))
      · rw [Function.update_of_ne same, Function.update_of_ne same]
        simp only [owned]
        cases s.space t with
        | none => rfl
        | some b =>
          have gone : s.Away t := .inl same
          rw [Option.map_some, Option.map_some, view, view, if_pos gone]
          exact congrArg some (if_pos gone)
    · rfl
  · intro t b space
    by_cases same : t = s.current
    · subst same
      change Function.update s.space s.current (some a) s.current = some b at space
      rw [Function.update_self] at space
      cases space
      obtain ⟨live, begun⟩ := inv.begun body
      refine ⟨live, begun, made, fun gone => absurd gone (not_away running), ?_⟩
      refine fun _ => ⟨rfl, rfl, fun asleep => ?_⟩
      simp [Kernel.InSleep, body] at asleep
    · have old : s.space t = some b := (Function.update_of_ne same ..).symm.trans space
      have thread := inv.threads t b old
      have gone : s.Away t := .inl same
      refine ⟨thread.live, thread.begun, thread.made, fun _ => ?_, fun stays => absurd gone stays⟩
      exact ⟨(thread.away gone).frame, (thread.away gone).registers⟩

theorem next_refines (inv : s.Invariant) (event : UserThreadEvent) :
    Refines (s.next big event) (s.owned.next big event) := by
  cases event with
  | kernel e => exact kernel_refines inv
  | newSpace space mainMemory => exact shared_refines inv (make_sizes space mainMemory)
  | execute a => exact execute_refines inv
  | oneInstruction => exact oneInstruction_refines inv
  | writeRegister num value => exact writeRegister_refines inv
  | writeMemory mainMemory => exact shared_refines inv ⟨Nat.le_refl _, fun _ _ => rfl⟩

theorem Invariant.of_reachable (reached : (userSystem big).Reachable s) : s.Invariant := by
  refine reached.invariant ?_ ?_
  · rintro s ⟨⟨initialValue, start⟩, registers, -, space⟩
    refine ⟨.init ⟨initialValue, start⟩, ?_, ?_⟩
    · rw [registers]
      exact zero_atBoundary
    · intro t a used
      rw [space] at used
      cases used
  · intro event s s' inv step
    exact (next_refines inv event).2 s' step

end UserSystem

/-- Whichever threads run, and whenever they are switched, each user program finds in the machine
what it would find in a machine of its own. -/
theorem user_programs_undisturbed (big : Bool) (s : UserSystem)
    (reached : (userSystem big).Reachable s) (events : List UserThreadEvent) :
    ((userSystem big).run events s).map UserSystem.owned =
      (ownSystem big).run events s.owned :=
  Machine.run_map (fun event _ inv => (UserSystem.next_refines inv event).1)
    (fun event _ s' inv step => (UserSystem.next_refines inv event).2 s' step)
    (UserSystem.Invariant.of_reachable reached) events

/-- The code of the program: `addiu $2, $0, 7`. -/
def setsSeven : Buf := fun i =>
  if i = 0 then 7 else if i = 2 then 2 else if i = 3 then 0x24 else 0

def onePage : AddrSpace := (AddrSpace.new 1 setsSeven).1

def beforeUserPrograms : UserSystem where
  kernel := .initial fun _ => 0
  machine := ⟨fun _ => 0, none, 0⟩
  shared := ⟨setsSeven, 0, fun _ => onePage⟩
  userRegisters _ _ := 0
  space _ := none

/-- The timer ends the slice of the first program after its first instruction, and the program
on the second thread uses register `num`. -/
def twoPrograms (num : Fin 40) : List UserThreadEvent :=
  [.kernel .newThread, .kernel (.fork 1), .newSpace onePage setsSeven, .newSpace onePage setsSeven,
    .execute 0, .oneInstruction, .kernel (.tick (some [.yieldOnReturn])), .kernel .tickReturn,
    .kernel .resume, .kernel (.tick none), .kernel .tickReturn, .execute 1, .writeRegister num 9,
    .kernel .yield, .kernel .resume]

theorem user_programs_undisturbed_two :
    (((userSystem false).run (twoPrograms 2) beforeUserPrograms).map UserSystem.owned).map
      (fun o => ((o.own 0).map fun u => (u.registers 2, u.pageTable),
        (o.own 1).map fun u => (u.registers 2, u.pageTable))) =
      some (some (7, some 0), some (9, some 1)) := by
  have start : (userSystem false).init beforeUserPrograms := ⟨⟨_, rfl⟩, rfl, rfl, rfl⟩
  rw [user_programs_undisturbed false beforeUserPrograms (.init start) (twoPrograms 2)]
  decide +kernel

end NachOS.Userprog
