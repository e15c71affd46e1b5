import NachOS.Lib.Machine
import NachOS.Lib.X86

/-!
# The context switch on the x86

threads/switch.S:295-375, threads/switch.h:131-157, threads/thread.cc:35-69,295-360

`SWITCH` saves the registers of one thread in its `Thread` object and loads those of another.
Each thread has a stack of its own; between two switches it does what it likes to its stack,
its registers and the memory that the threads share.

Above the processor stand the coroutines: every thread has its own registers, place in the code
and stack, and a switch does nothing but go on with another thread. That the processor behaves
like this is what the rest of the kernel relies on.

Left out: the other architectures, the guard pages around a stack, and memory that a deleted
thread gives back and that is used for something other than a thread in its place.
-/
namespace NachOS.Threads
open NachOS.Lib NachOS.Lib.X86

/-- `_ESP` to `_EDI`: where in a `Thread` object a register is saved. -/
def offset : Reg → Word
  | .esp => 0
  | .eax => 4
  | .ebx => 8
  | .ecx => 12
  | .edx => 16
  | .ebp => 20
  | .esi => 24
  | .edi => 28

/-- `_PC`. -/
def offsetPC : Word := 32

def MachineStateSize : Nat := 75

/-- In words. -/
def StackSize : Nat := 8 * 1024

def STACK_FENCEPOST : Word := 0xdedbeef

/-- The instructions of `SWITCH` up to the one that loads `t2`. -/
def switchSaves (eaxSave : Word) : List Op :=
  [.movl (.reg .eax) (.label eaxSave),
    .movl (.mem 4 .esp) (.reg .eax),
    .movl (.reg .ebx) (.mem (offset .ebx) .eax),
    .movl (.reg .ecx) (.mem (offset .ecx) .eax),
    .movl (.reg .edx) (.mem (offset .edx) .eax),
    .movl (.reg .esi) (.mem (offset .esi) .eax),
    .movl (.reg .edi) (.mem (offset .edi) .eax),
    .movl (.reg .ebp) (.mem (offset .ebp) .eax),
    .movl (.reg .esp) (.mem (offset .esp) .eax),
    .movl (.label eaxSave) (.reg .ebx),
    .movl (.reg .ebx) (.mem (offset .eax) .eax),
    .movl (.mem 0 .esp) (.reg .ebx),
    .movl (.reg .ebx) (.mem offsetPC .eax)]

/-- The others, up to the return. The return address goes to the place above the one that
`ret` takes it from. -/
def switchRestores (eaxSave : Word) : List Op :=
  [.movl (.mem 8 .esp) (.reg .eax),
    .movl (.mem (offset .eax) .eax) (.reg .ebx),
    .movl (.reg .ebx) (.label eaxSave),
    .movl (.mem (offset .ebx) .eax) (.reg .ebx),
    .movl (.mem (offset .ecx) .eax) (.reg .ecx),
    .movl (.mem (offset .edx) .eax) (.reg .edx),
    .movl (.mem (offset .esi) .eax) (.reg .esi),
    .movl (.mem (offset .edi) .eax) (.reg .edi),
    .movl (.mem (offset .ebp) .eax) (.reg .ebp),
    .movl (.mem (offset .esp) .eax) (.reg .esp),
    .movl (.mem offsetPC .eax) (.reg .eax),
    .movl (.reg .eax) (.mem 4 .esp),
    .movl (.label eaxSave) (.reg .eax)]

def switchCode (eaxSave : Word) : List Instr :=
  (switchSaves eaxSave ++ switchRestores eaxSave).map .op ++ [.ret]

def threadRootCode : List Instr :=
  [.op (.pushl .ebp),
    .op (.movl (.reg .esp) (.reg .ebp)),
    .op (.pushl .edx),
    .call .ecx,
    .call .esi,
    .call .edi,
    .op (.movl (.reg .ebp) (.reg .esp)),
    .op (.popl .ebp),
    .ret]

/-- Whose a word of the memory is. -/
inductive Place (Thread : Type) where
  /-- `stackTop` or `machineState`. -/
  | object (t : Thread)
  | stack (t : Thread)
  | eaxSave
  | shared
  deriving DecidableEq

/-- Where the threads and the code are in memory. -/
structure Layout (Thread : Type) where
  place : Word → Place Thread
  object : Thread → Word
  stack : Thread → Word
  eaxSave : Word
  SWITCH : Word
  ThreadRoot : Word
  ThreadBegin : Word
  ThreadFinish : Word
  code : Code
  switch_loaded : Loaded code SWITCH (switchCode eaxSave)
  root_loaded : Loaded code ThreadRoot threadRootCode
  object_aligned : ∀ t, (object t).toNat % 4 = 0
  stack_aligned : ∀ t, (stack t).toNat % 4 = 0
  eaxSave_aligned : eaxSave.toNat % 4 = 0
  place_object : ∀ t, ∀ k < 1 + MachineStateSize,
    place (object t + BitVec.ofNat 32 (4 * k)) = .object t
  place_stack : ∀ t, ∀ k < StackSize, place (stack t + BitVec.ofNat 32 (4 * k)) = .stack t
  place_eaxSave : place eaxSave = .eaxSave

/-- What a thread sees: its registers, where it is, and its stack. -/
@[ext] structure Context where
  reg : Reg → Word
  eip : Word
  stack : Word → Word

section System

variable {Thread : Type} [DecidableEq Thread] (L : Layout Thread)

namespace Layout

/-- The words of the thread's stack. -/
def onStack (t : Thread) (memory : Word → Word) (a : Word) : Word :=
  if L.place a = .stack t then memory a else 0

def onShared (memory : Word → Word) (a : Word) : Word :=
  if L.place a = .shared then memory a else 0

/-- The address of `machineState[i]`. -/
def machineState (t : Thread) (i : Nat) : Word := L.object t + BitVec.ofNat 32 (4 * (1 + i))

/-- `Thread::Thread`. -/
def new (t : Thread) (memory : Word → Word) : Word → Word :=
  (List.range MachineStateSize).foldl (fun m i => Function.update m (L.machineState t i) 0)
    (Function.update memory (L.object t) 0)

/-- `stack + StackSize - 4`, decremented. -/
def stackTop (t : Thread) : Word := L.stack t + BitVec.ofNat 32 (4 * (StackSize - 4)) - 4

/-- `Thread::StackAllocate`, once it has the stack. -/
def stackAllocate (t : Thread) (func arg : Word) (memory : Word → Word) : Word → Word :=
  let m := Function.update memory (L.object t + offset .esp) (L.stackTop t)
  let m := Function.update m (L.stackTop t) L.ThreadRoot
  let m := Function.update m (L.stack t) STACK_FENCEPOST
  let m := Function.update m (L.object t + offsetPC) L.ThreadRoot
  let m := Function.update m (L.object t + offset .ecx) L.ThreadBegin
  let m := Function.update m (L.object t + offset .esi) func
  let m := Function.update m (L.object t + offset .edx) arg
  Function.update m (L.object t + offset .edi) L.ThreadFinish

/-- Thread `t` has called `SWITCH(t, u)`. -/
def Calls (t u : Thread) (reg : Reg → Word) (eip : Word) (memory : Word → Word) : Prop :=
  eip = L.SWITCH ∧ (reg .esp).toNat % 4 = 0 ∧
    (L.place (reg .esp) = .stack t ∧ L.place (reg .esp + 4) = .stack t ∧
      L.place (reg .esp + 8) = .stack t) ∧
    memory (reg .esp + 4) = L.object t ∧ memory (reg .esp + 8) = L.object u

instance (t u : Thread) (reg : Reg → Word) (eip : Word) (memory : Word → Word) :
    Decidable (L.Calls t u reg eip memory) :=
  inferInstanceAs (Decidable (_ ∧ _))

end Layout

structure Processor (Thread : Type) where
  x : State
  current : Thread
  /-- The threads that have a stack and are not deleted. -/
  live : Thread → Bool

inductive SwitchEvent (Thread : Type) where
  /-- The current thread does something; what the registers, its stack and the shared memory
  are afterwards. -/
  | work (reg : Reg → Word) (eip : Word) (memory : Word → Word)
  /-- `new Thread` and `Fork`; what the memory for the stack holds. -/
  | fork (t : Thread) (func arg : Word) (memory : Word → Word)
  | delete (t : Thread)
  /-- The current thread runs `SWITCH`. -/
  | switch (t : Thread)

namespace Processor

def next : SwitchEvent Thread → Processor Thread → Option (Processor Thread)
  | .work reg eip memory, s =>
    let own a := L.place a = .stack s.current ∨ L.place a = .shared
    some { s with x := ⟨⟨reg, fun a => if own a then memory a else s.x.data.memory a⟩, eip⟩ }
  | .fork t func arg memory, s =>
    if s.live t = false then
      let fresh a := if L.place a = .stack t then memory a else s.x.data.memory a
      let memory := L.stackAllocate t func arg (L.new t fresh)
      some { s with
        x := { s.x with data := { s.x.data with memory } }
        live := Function.update s.live t true }
    else none
  | .delete t, s =>
    if t ≠ s.current ∧ s.live t = true then
      some { s with live := Function.update s.live t false }
    else none
  | .switch t, s =>
    if L.Calls s.current t s.x.data.reg s.x.eip s.x.data.memory ∧ s.live t = true then
      (s.x.run L.code (switchCode L.eaxSave).length).map fun x => { s with x, current := t }
    else none

end Processor

/-- Any number of threads on one processor, of which one is there from the beginning. -/
def processorMachine : Machine (Processor Thread) (SwitchEvent Thread) where
  init s := s.live = Function.update (fun _ => false) s.current true
  next := Processor.next L

@[ext] structure Coroutines (Thread : Type) where
  current : Thread
  context : Thread → Option Context
  shared : Word → Word

namespace Coroutines

/-- The context of a thread that starts in `ThreadRoot`. -/
def fresh (t : Thread) (func arg : Word) (memory : Word → Word) : Context where
  reg
    | .esp => L.stackTop t + 4
    | .ecx => L.ThreadBegin
    | .edx => arg
    | .esi => func
    | .edi => L.ThreadFinish
    | .eax | .ebx | .ebp => 0
  eip := L.ThreadRoot
  stack := L.onStack t (Function.update (Function.update (Function.update memory
    (L.stackTop t) L.ThreadRoot) (L.stack t) STACK_FENCEPOST) (L.stackTop t + 4) L.ThreadRoot)

omit [DecidableEq Thread] in
variable (Thread) in
/-- `SWITCH` returned. It has written over its first argument. -/
def returned (c : Context) : Context where
  reg := Function.update c.reg .esp (c.reg .esp + 4)
  eip := c.stack (c.reg .esp)
  stack := Function.update c.stack (c.reg .esp + 4) (c.stack (c.reg .esp))

def next : SwitchEvent Thread → Coroutines Thread → Option (Coroutines Thread)
  | .work reg eip memory, s =>
    some { s with
      context := Function.update s.context s.current
        (some ⟨reg, eip, L.onStack s.current memory⟩)
      shared := L.onShared memory }
  | .fork t func arg memory, s =>
    if s.context t = none then
      some { s with context := Function.update s.context t (some (fresh L t func arg memory)) }
    else none
  | .delete t, s =>
    if t ≠ s.current ∧ s.context t ≠ none then
      some { s with context := Function.update s.context t none }
    else none
  | .switch t, s =>
    (s.context s.current).bind fun c =>
      if L.Calls s.current t c.reg c.eip c.stack ∧ s.context t ≠ none then
        some { s with
          current := t
          context := Function.update s.context s.current (some (returned c)) }
      else none

end Coroutines

/-- The threads as coroutines. -/
def coroutineMachine : Machine (Coroutines Thread) (SwitchEvent Thread) where
  init s := ∃ c, s.context = Function.update (fun _ => none) s.current (some c)
  next := Coroutines.next L

namespace Layout

/-- The context that is saved in the object and on the stack of `t`. -/
def saved (memory : Word → Word) (t : Thread) : Context :=
  let esp := memory (L.object t + offset .esp)
  let eip := memory (L.object t + offsetPC)
  { reg := Function.update (fun r => memory (L.object t + offset r)) .esp (esp + 4)
    eip
    stack := L.onStack t (Function.update memory (esp + 4) eip) }

/-- `t` can be switched to. -/
structure Suspended (memory : Word → Word) (t : Thread) : Prop where
  aligned : (memory (L.object t + offset .esp)).toNat % 4 = 0
  place : L.place (memory (L.object t + offset .esp)) = .stack t ∧
    L.place (memory (L.object t + offset .esp) + 4) = .stack t
  back : memory (memory (L.object t + offset .esp)) = memory (L.object t + offsetPC)

end Layout

/-- What the threads of the processor see. -/
def Processor.coroutines (s : Processor Thread) : Coroutines Thread where
  current := s.current
  context t :=
    if s.live t then
      some (if t = s.current then ⟨s.x.data.reg, s.x.eip, L.onStack t s.x.data.memory⟩
        else L.saved s.x.data.memory t)
    else none
  shared := L.onShared s.x.data.memory

theorem offset_aligned (r : Reg) : (offset r).toNat % 4 = 0 := by
  cases r with
  | eax | ebx | ecx | edx | esi | edi | ebp | esp => decide

theorem offset_injective {r r' : Reg} (h : offset r = offset r') : r = r' := by
  revert h
  cases r <;> cases r' <;> decide

theorem offset_ne_offsetPC (r : Reg) : offset r ≠ offsetPC := by
  cases r with
  | eax | ebx | ecx | edx | esi | edi | ebp | esp => decide

namespace Layout

variable {L} {t u : Thread} {a : Word} {m m' : Word → Word}

omit [DecidableEq Thread] in
@[simp] theorem place_offset (r : Reg) : L.place (L.object t + offset r) = .object t := by
  cases r with
  | esp => exact L.place_object t 0 (by decide)
  | eax => exact L.place_object t 1 (by decide)
  | ebx => exact L.place_object t 2 (by decide)
  | ecx => exact L.place_object t 3 (by decide)
  | edx => exact L.place_object t 4 (by decide)
  | ebp => exact L.place_object t 5 (by decide)
  | esi => exact L.place_object t 6 (by decide)
  | edi => exact L.place_object t 7 (by decide)

omit [DecidableEq Thread] in
@[simp] theorem place_offsetPC : L.place (L.object t + offsetPC) = .object t :=
  L.place_object t 8 (by decide)

omit [DecidableEq Thread] in
/-- An address outside of the object is none of those where a register is saved. -/
theorem ne_object (outside : L.place a ≠ .object t) :
    (∀ r, a ≠ L.object t + offset r) ∧ a ≠ L.object t + offsetPC := by
  constructor
  · rintro r rfl
    exact outside (place_offset r)
  · rintro rfl
    exact outside place_offsetPC

theorem onStack_congr (same : ∀ a, L.place a = .stack t → m' a = m a) :
    L.onStack t m' = L.onStack t m := by
  funext a
  unfold onStack
  split
  next inside => exact same a inside
  next => rfl

theorem saved_congr (same : ∀ a, L.place a = .object t ∨ L.place a = .stack t → m' a = m a) :
    L.saved m' t = L.saved m t := by
  have object : ∀ r, m' (L.object t + offset r) = m (L.object t + offset r) :=
    fun r => same _ (.inl (place_offset r))
  have pc : m' (L.object t + offsetPC) = m (L.object t + offsetPC) :=
    same _ (.inl place_offsetPC)
  unfold saved
  simp only [object, pc]
  congr 1
  apply onStack_congr
  intro a inside
  by_cases ha : a = m (L.object t + offset .esp) + 4
  · simp [ha]
  · simp only [Function.update_of_ne ha]
    exact same a (.inr inside)

omit [DecidableEq Thread] in
theorem Suspended.congr (h : L.Suspended m t)
    (same : ∀ a, L.place a = .object t ∨ L.place a = .stack t → m' a = m a) :
    L.Suspended m' t := by
  have object : ∀ r, m' (L.object t + offset r) = m (L.object t + offset r) :=
    fun r => same _ (.inl (place_offset r))
  constructor
  · rw [object]
    exact h.aligned
  · rw [object]
    exact h.place
  · rw [object, same _ (.inl place_offsetPC), same _ (.inr h.place.1)]
    exact h.back

end Layout

/-- What the first half of `SWITCH` does. -/
structure Saved (t : Thread) (d d' : Data) : Prop where
  esp : d'.reg .esp = d.reg .esp
  reg : ∀ r, d'.memory (L.object t + offset r) = d.reg r
  pc : d'.memory (L.object t + offsetPC) = d.memory (d.reg .esp)
  others : ∀ a, L.place a ≠ .object t → L.place a ≠ .eaxSave → d'.memory a = d.memory a

variable {L} {t u : Thread} {d : Data}

omit [DecidableEq Thread] in
theorem switchSaves_run (aligned : (d.reg .esp).toNat % 4 = 0)
    (place : L.place (d.reg .esp) = .stack t ∧ L.place (d.reg .esp + 4) = .stack t)
    (argument : d.memory (d.reg .esp + 4) = L.object t) :
    ∃ d', d.execAll (switchSaves L.eaxSave) = some d' ∧ Saved L t d d' := by
  have slot : (d.reg .esp + 4).toNat % 4 = 0 := aligned_add aligned (by decide)
  have fields : ∀ r, (L.object t + offset r).toNat % 4 = 0 :=
    fun r => aligned_add (L.object_aligned t) (offset_aligned r)
  have field : (L.object t + offsetPC).toNat % 4 = 0 :=
    aligned_add (L.object_aligned t) (by decide)
  have distinct : ∀ r r', L.object t + offset r = L.object t + offset r' ↔ r = r' := by
    intro r r'
    rw [add_right_inj]
    exact ⟨offset_injective, fun same => by rw [same]⟩
  have distinctPC : ∀ r, L.object t + offset r ≠ L.object t + offsetPC := by
    intro r
    rw [Ne, add_right_inj]
    exact offset_ne_offsetPC r
  have save := Layout.ne_object (L := L) (t := t) (a := L.eaxSave) (by simp [L.place_eaxSave])
  have top := Layout.ne_object (L := L) (t := t) (a := d.reg .esp) (by simp [place.1])
  have away : d.reg .esp + 4 ≠ L.eaxSave ∧ d.reg .esp ≠ L.eaxSave := by
    constructor
    · intro same
      have at_save := place.2
      rw [same, L.place_eaxSave] at at_save
      cases at_save
    · intro same
      have at_save := place.1
      rw [same, L.place_eaxSave] at at_save
      cases at_save
  have known := L.eaxSave_aligned
  simp only [switchSaves, Data.execAll, Data.exec, Data.read, Data.write, Data.load, Data.store,
    Data.setReg, Option.bind_some, if_true, known, slot, fields, field, aligned,
    Function.update_self, Function.update_of_ne, away, save, top, argument, ne_eq,
    not_false_eq_true, reduceCtorEq, add_zero]
  refine ⟨_, rfl, ?_⟩
  constructor
  · simp
  · intro r
    cases r with
    | eax | ebx | ecx | edx | esi | edi | ebp | esp =>
      simp [distinctPC, distinct]
  · simp
  · intro a outside unsaved
    obtain ⟨others, pc⟩ := Layout.ne_object outside
    have other : a ≠ L.eaxSave := by
      rintro rfl
      exact unsaved L.place_eaxSave
    simp only [Function.update_of_ne, ne_eq, others, pc, other, not_false_eq_true]

omit [DecidableEq Thread] in
/-- What the second half of `SWITCH` does. -/
theorem switchRestores_run (slot : (d.reg .esp + 8).toNat % 4 = 0)
    (argument : d.memory (d.reg .esp + 8) = L.object u) (suspended : L.Suspended d.memory u) :
    ∃ d', d.execAll (switchRestores L.eaxSave) = some d' ∧
      (∀ r, d'.reg r = d.memory (L.object u + offset r)) ∧
      d'.memory = Function.update
        (Function.update d.memory L.eaxSave (d.memory (L.object u + offset .eax)))
        (d.memory (L.object u + offset .esp) + 4) (d.memory (L.object u + offsetPC)) := by
  have fields : ∀ r, (L.object u + offset r).toNat % 4 = 0 :=
    fun r => aligned_add (L.object_aligned u) (offset_aligned r)
  have field : (L.object u + offsetPC).toNat % 4 = 0 :=
    aligned_add (L.object_aligned u) (by decide)
  have target : (d.memory (L.object u + offset .esp) + 4).toNat % 4 = 0 :=
    aligned_add suspended.aligned (by decide)
  have save := Layout.ne_object (L := L) (t := u) (a := L.eaxSave) (by simp [L.place_eaxSave])
  have apart : ∀ r, L.object u + offset r ≠ L.eaxSave := fun r same => save.1 r same.symm
  have apartPC : L.object u + offsetPC ≠ L.eaxSave := fun same => save.2 same.symm
  have top : L.eaxSave ≠ d.memory (L.object u + offset .esp) + 4 := by
    intro same
    have at_save := suspended.place.2
    rw [← same, L.place_eaxSave] at at_save
    cases at_save
  have known := L.eaxSave_aligned
  simp only [switchRestores, Data.execAll, Data.exec, Data.read, Data.write, Data.load, Data.store,
    Data.setReg, Option.bind_some, if_true, known, slot, fields, field, target,
    Function.update_self, Function.update_of_ne, apart, apartPC, top, argument, ne_eq,
    not_false_eq_true, reduceCtorEq]
  refine ⟨_, rfl, ?_, rfl⟩
  intro r
  cases r with
  | eax | ebx | ecx | edx | esi | edi | ebp | esp => simp

namespace Layout

variable (L) in
/-- Two memories in which the threads other than `t` have the same objects and stacks, and the
shared words are the same. -/
structure SameBut (t : Thread) (m m' : Word → Word) : Prop where
  threads : ∀ v, v ≠ t → ∀ a, L.place a = .object v ∨ L.place a = .stack v → m' a = m a
  shared : L.onShared m' = L.onShared m

theorem SameBut.of_places {m m' : Word → Word} (same : ∀ a, L.place a ≠ .object t →
    L.place a ≠ .stack t → L.place a ≠ .eaxSave → m' a = m a) : L.SameBut t m m' := by
  constructor
  · intro v other a here
    rcases here with here | here
    · exact same a (by simp [here, other]) (by simp [here]) (by simp [here])
    · exact same a (by simp [here]) (by simp [here, other]) (by simp [here])
  · funext a
    unfold onShared
    split
    next here => exact same a (by simp [here]) (by simp [here]) (by simp [here])
    next => rfl

end Layout

omit [DecidableEq Thread] in
theorem Saved.stack {d' : Data} (h : Saved L t d d') {a : Word} {v : Thread}
    (inside : L.place a = .stack v) : d'.memory a = d.memory a :=
  h.others a (by simp [inside]) (by simp [inside])

/-- The thread that called `SWITCH` can be switched to, and is then past the call. -/
theorem Saved.context {d' : Data} {eip : Word} (h : Saved L t d d')
    (calls : L.Calls t u d.reg eip d.memory) :
    L.Suspended d'.memory t ∧
      L.saved d'.memory t = Coroutines.returned ⟨d.reg, eip, L.onStack t d.memory⟩ := by
  obtain ⟨-, aligned, ⟨top, slot, -⟩, -⟩ := calls
  have esp : d'.memory (L.object t + offset .esp) = d.reg .esp := h.reg .esp
  constructor
  · constructor
    · rw [esp]
      exact aligned
    · rw [esp]
      exact ⟨top, slot⟩
    · rw [esp, h.pc]
      exact h.stack top
  · unfold Layout.saved Coroutines.returned
    simp only [h.reg, h.pc]
    congr 1
    · simp [Layout.onStack, top]
    · funext a
      by_cases ha : a = d.reg .esp + 4
      · subst ha
        simp only [Layout.onStack, Function.update_self, if_pos top, if_pos slot]
      · simp only [Layout.onStack, Function.update_of_ne ha]
        split
        next inside => exact h.stack inside
        next => rfl

/-- `SWITCH(t, u)`, from the call to the return. -/
theorem switch_run {x : State} (calls : L.Calls t u x.data.reg x.eip x.data.memory)
    (suspended : u ≠ t → L.Suspended x.data.memory u) :
    ∃ m x', x.run L.code (switchCode L.eaxSave).length = some x' ∧
      (L.Suspended m t ∧
        L.saved m t = Coroutines.returned ⟨x.data.reg, x.eip, L.onStack t x.data.memory⟩) ∧
      L.SameBut t x.data.memory m ∧
      (⟨x'.data.reg, x'.eip, L.onStack u x'.data.memory⟩ : Context) = L.saved m u ∧
      L.SameBut u m x'.data.memory := by
  obtain ⟨at_switch, aligned, ⟨top, slot, slot₂⟩, first, second⟩ := id calls
  obtain ⟨d, saves, saved⟩ := switchSaves_run aligned ⟨top, slot⟩ first
  have own := saved.context calls
  have others : L.SameBut t x.data.memory d.memory := .of_places fun a outside _ unsaved =>
    saved.others a outside unsaved
  have ready : L.Suspended d.memory u := by
    by_cases hu : u = t
    · subst hu
      exact own.1
    · exact (suspended hu).congr (others.threads u hu)
  have argument : d.memory (d.reg .esp + 8) = L.object u := by
    rw [saved.esp, saved.stack slot₂]
    exact second
  have aligned₂ : (d.reg .esp + 8).toNat % 4 = 0 := by
    rw [saved.esp]
    exact aligned_add aligned (by decide)
  obtain ⟨d', restores, reg, memory⟩ := switchRestores_run aligned₂ argument ready
  have executes : x.data.execAll (switchSaves L.eaxSave ++ switchRestores L.eaxSave) = some d' := by
    rw [Data.execAll_append, saves]
    exact restores
  obtain ⟨back, runs, loaded⟩ := run_ops L.switch_loaded executes
  have returns := step_ret (d := d') loaded (by rw [reg]; exact ready.aligned)
  have runs : x.run L.code (switchCode L.eaxSave).length =
      some ⟨d'.setReg .esp (d'.reg .esp + 4), d'.memory (d'.reg .esp)⟩ := by
    have length : (switchCode L.eaxSave).length =
        (switchSaves L.eaxSave ++ switchRestores L.eaxSave).length + 1 := rfl
    rw [length, run_add, show x = ⟨x.data, L.SWITCH⟩ by rw [← at_switch], runs]
    simp only [Option.bind_some, State.run, returns]
  -- The words in which `t` and the other threads could be told apart are left alone.
  have rest : L.SameBut u d.memory d'.memory := .of_places fun a _ outside unsaved => by
    rw [memory]
    have slot : a ≠ d.memory (L.object u + offset .esp) + 4 := by
      rintro rfl
      exact outside ready.place.2
    have save : a ≠ L.eaxSave := by
      rintro rfl
      exact unsaved L.place_eaxSave
    rw [Function.update_of_ne slot, Function.update_of_ne save]
  have stack : ∀ a, L.place a = .stack u → d'.memory a = Function.update d.memory
      (d.memory (L.object u + offset .esp) + 4) (d.memory (L.object u + offsetPC)) a := by
    intro a inside
    rw [memory]
    by_cases slot : a = d.memory (L.object u + offset .esp) + 4
    · rw [slot, Function.update_self, Function.update_self]
    · have save : a ≠ L.eaxSave := by
        rintro rfl
        rw [L.place_eaxSave] at inside
        cases inside
      rw [Function.update_of_ne slot, Function.update_of_ne save, Function.update_of_ne slot]
  have registers : d'.reg = fun r => d.memory (L.object u + offset r) := funext reg
  have eip : d'.memory (d'.reg .esp) = d.memory (L.object u + offsetPC) := by
    have below : d.memory (L.object u + offset .esp) ≠ d.memory (L.object u + offset .esp) + 4 := by
      simp
    rw [reg, stack _ ready.place.1, Function.update_of_ne below]
    exact ready.back
  refine ⟨d.memory, _, runs, own, others, ?_, rest⟩
  unfold Layout.saved
  simp only [Data.setReg, registers]
  congr 1
  · rw [← reg .esp]
    exact eip
  · exact Layout.onStack_congr stack

namespace Layout

variable {m : Word → Word} {a : Word}

omit [DecidableEq Thread] in
theorem place_machineState {i : Nat} (h : i < MachineStateSize) :
    L.place (L.machineState t i) = .object t :=
  L.place_object t (1 + i) (Nat.add_lt_add_left h 1)

omit [DecidableEq Thread] in
/-- The constructor writes to the object, and clears it. -/
theorem new_outside (outside : L.place a ≠ .object t) : L.new t m a = m a := by
  have fold : ∀ (is : List Nat) (m : Word → Word), (∀ i ∈ is, i < MachineStateSize) →
      (is.foldl (fun m i => Function.update m (L.machineState t i) 0) m) a = m a := by
    intro is
    induction is with
    | nil => exact fun _ _ => rfl
    | cons i is ih =>
      intro m small
      have here : a ≠ L.machineState t i := by
        rintro rfl
        exact outside (place_machineState (small i List.mem_cons_self))
      rw [List.foldl_cons, ih _ fun j hj => small j (List.mem_cons_of_mem _ hj),
        Function.update_of_ne here]
  have top : a ≠ L.object t := by
    rintro rfl
    exact outside (by simpa [offset] using place_offset (L := L) (t := t) .esp)
  unfold new
  rw [fold _ _ (fun i hi => List.mem_range.mp hi), Function.update_of_ne top]

omit [DecidableEq Thread] in
theorem new_machineState {i : Nat} (h : i < MachineStateSize) :
    L.new t m (L.machineState t i) = 0 := by
  have fold : ∀ (is : List Nat) (m : Word → Word), i ∈ is ∨ m (L.machineState t i) = 0 →
      (is.foldl (fun m j => Function.update m (L.machineState t j) 0) m)
        (L.machineState t i) = 0 := by
    intro is
    induction is with
    | nil =>
      intro m cleared
      exact cleared.resolve_left (by simp)
    | cons j is ih =>
      intro m cleared
      rw [List.foldl_cons]
      apply ih
      by_cases same : L.machineState t i = L.machineState t j
      · rw [same, Function.update_self]
        exact .inr rfl
      · rw [Function.update_of_ne same]
        rcases cleared with member | zero
        · refine .inl ((List.mem_cons.mp member).resolve_left ?_)
          rintro rfl
          exact same rfl
        · exact .inr zero
  exact fold _ _ (.inl (List.mem_range.mpr h))

omit [DecidableEq Thread] in
theorem place_stackTop : L.place (L.stackTop t) = .stack t ∧
    L.place (L.stackTop t + 4) = .stack t := by
  constructor
  · have below : L.stackTop t = L.stack t + BitVec.ofNat 32 (4 * (StackSize - 5)) := by
      unfold stackTop
      rw [add_sub_assoc]
      rfl
    rw [below]
    exact L.place_stack t _ (by decide)
  · have above : L.stackTop t + 4 = L.stack t + BitVec.ofNat 32 (4 * (StackSize - 4)) := by
      unfold stackTop
      rw [sub_add_cancel]
    rw [above]
    exact L.place_stack t _ (by decide)

omit [DecidableEq Thread] in
theorem stackTop_aligned : (L.stackTop t).toNat % 4 = 0 :=
  aligned_sub (aligned_add (L.stack_aligned t) (by decide)) (by decide)

omit [DecidableEq Thread] in
theorem place_bottom : L.place (L.stack t) = .stack t := by
  simpa using L.place_stack t 0 (by decide)

omit [DecidableEq Thread] in
/-- The registers that `StackAllocate` leaves as the constructor made them. -/
theorem new_cleared {r : Reg} (h : r = .eax ∨ r = .ebx ∨ r = .ebp) :
    L.new t m (L.object t + offset r) = 0 := by
  rcases h with rfl | rfl | rfl
  · exact new_machineState (i := 0) (by decide)
  · exact new_machineState (i := 1) (by decide)
  · exact new_machineState (i := 4) (by decide)

variable (L t) in
/-- A new stack, as `StackAllocate` leaves it. -/
def newStack (m : Word → Word) : Word → Word :=
  Function.update (Function.update m (L.stackTop t) L.ThreadRoot) (L.stack t) STACK_FENCEPOST

omit [DecidableEq Thread] in
theorem stackAllocate_outside {func arg : Word} (outside : L.place a ≠ .object t) :
    L.stackAllocate t func arg (L.new t m) a = newStack L t m a := by
  obtain ⟨others, pc⟩ := ne_object outside
  have cleared := new_outside (m := m) outside
  unfold stackAllocate newStack
  simp only [Function.update_of_ne, ne_eq, others, pc, not_false_eq_true]
  by_cases bottom : a = L.stack t
  · rw [bottom, Function.update_self, Function.update_self]
  · rw [Function.update_of_ne bottom, Function.update_of_ne bottom]
    by_cases top : a = L.stackTop t
    · rw [top, Function.update_self, Function.update_self]
    · rw [Function.update_of_ne top, Function.update_of_ne top, Function.update_of_ne (others .esp),
        cleared]

/-- What is saved in the object of a new thread. -/
theorem stackAllocate_object (func arg : Word) :
    L.stackAllocate t func arg (L.new t m) (L.object t + offset .esp) = L.stackTop t ∧
    (∀ r, r ≠ .esp → L.stackAllocate t func arg (L.new t m) (L.object t + offset r) =
      (Coroutines.fresh L t func arg m).reg r) ∧
    L.stackAllocate t func arg (L.new t m) (L.object t + offsetPC) = L.ThreadRoot := by
  have distinct : ∀ r r', L.object t + offset r = L.object t + offset r' ↔ r = r' := by
    intro r r'
    rw [add_right_inj]
    exact ⟨offset_injective, fun same => by rw [same]⟩
  have distinctPC : ∀ r, L.object t + offset r ≠ L.object t + offsetPC := by
    intro r
    rw [Ne, add_right_inj]
    exact offset_ne_offsetPC r
  have top := ne_object (L := L) (t := t) (a := L.stackTop t) (by simp [place_stackTop])
  have bottom := ne_object (L := L) (t := t) (a := L.stack t) (by simp [place_bottom])
  have apart : ∀ r, L.object t + offset r ≠ L.stackTop t ∧ L.object t + offset r ≠ L.stack t :=
    fun r => ⟨fun same => top.1 r same.symm, fun same => bottom.1 r same.symm⟩
  refine ⟨?_, ?_, ?_⟩
  · simp [stackAllocate, distinct, distinctPC, apart]
  · intro r other
    have cleared := new_cleared (L := L) (t := t) (m := m) (r := r)
    unfold stackAllocate
    cases r with
    | esp => exact absurd rfl other
    | eax | ebx | ecx | edx | esi | edi | ebp =>
      simp [distinct, distinctPC, apart, cleared, Coroutines.fresh]
  · simp [stackAllocate, fun r => (distinctPC r).symm]

/-- A new thread can be switched to, and starts in `ThreadRoot`. -/
theorem stackAllocate_saved (func arg : Word) :
    L.Suspended (L.stackAllocate t func arg (L.new t m)) t ∧
      L.saved (L.stackAllocate t func arg (L.new t m)) t = Coroutines.fresh L t func arg m := by
  obtain ⟨esp, reg, pc⟩ := stackAllocate_object (L := L) (t := t) (m := m) func arg
  have stack : ∀ a, L.place a = .stack t →
      L.stackAllocate t func arg (L.new t m) a = newStack L t m a :=
    fun a inside => stackAllocate_outside (by simp [inside])
  have apart : L.stackTop t ≠ L.stack t := by
    unfold stackTop
    rw [add_sub_assoc, Ne, add_eq_left]
    decide
  constructor
  · constructor
    · rw [esp]
      exact stackTop_aligned
    · rw [esp]
      exact place_stackTop
    · rw [esp, pc, stack _ place_stackTop.1, newStack, Function.update_of_ne apart,
        Function.update_self]
  · unfold saved
    simp only [esp, pc]
    have registers : Function.update
        (fun r => L.stackAllocate t func arg (L.new t m) (L.object t + offset r)) .esp
        (L.stackTop t + 4) = (Coroutines.fresh L t func arg m).reg := by
      funext r
      by_cases hr : r = .esp
      · subst hr
        rw [Function.update_self]
        rfl
      · rw [Function.update_of_ne hr, reg r hr]
    apply Context.ext
    · exact registers
    · rfl
    · simp only [Coroutines.fresh]
      apply onStack_congr
      intro a inside
      by_cases slot : a = L.stackTop t + 4
      · rw [slot, Function.update_self, Function.update_self]
      · rw [Function.update_of_ne slot, Function.update_of_ne slot, stack a inside, newStack]

end Layout

/-- All threads but the current one can be switched to. -/
structure Processor.Invariant (L : Layout Thread) (s : Processor Thread) : Prop where
  current : s.live s.current = true
  suspended : ∀ t, t ≠ s.current → s.live t = true → L.Suspended s.x.data.memory t

namespace Layout

variable {m m' : Word → Word}

theorem fresh_congr {func arg : Word} (same : ∀ a, L.place a = .stack t → m' a = m a) :
    Coroutines.fresh L t func arg m' = Coroutines.fresh L t func arg m := by
  unfold Coroutines.fresh
  congr 1
  apply onStack_congr
  intro a inside
  simp only [Function.update_apply, same a inside]

/-- The call is seen on the thread's own stack. -/
theorem calls_onStack {reg : Reg → Word} {eip : Word} :
    L.Calls t u reg eip (L.onStack t m) ↔ L.Calls t u reg eip m := by
  unfold Calls
  refine and_congr_right fun _ => and_congr_right fun _ => and_congr_right fun places => ?_
  simp only [onStack, if_pos places.2.1, if_pos places.2.2]

end Layout

namespace Processor

variable {s : Processor Thread}

/-- The other threads after a step of thread `t`, which is or was the current one. -/
theorem Invariant.sameBut (h : s.Invariant L) {m : Word → Word}
    (same : L.SameBut s.current s.x.data.memory m) (other : t ≠ s.current)
    (live : s.live t = true) :
    L.Suspended m t ∧ L.saved m t = L.saved s.x.data.memory t :=
  ⟨(h.suspended t other live).congr (same.threads t other),
    Layout.saved_congr (same.threads t other)⟩

/-- What the current thread does on its own leaves the others alone. -/
theorem Invariant.work_refines (h : s.Invariant L) {reg : Reg → Word} {eip : Word}
    {memory : Word → Word}
    {s' : Processor Thread} (step : s.next L (.work reg eip memory) = some s') :
    s'.Invariant L ∧
      (s.coroutines L).next L (.work reg eip memory) = some (s'.coroutines L) := by
  cases step
  have others : ∀ t, t ≠ s.current → ∀ a, L.place a = .object t ∨ L.place a = .stack t →
      (if L.place a = .stack s.current ∨ L.place a = .shared then memory a
        else s.x.data.memory a) = s.x.data.memory a := by
    intro t other a here
    rcases here with here | here
    · simp [here]
    · simp [here, other]
  constructor
  · constructor
    · exact h.current
    · intro t other live
      exact (h.suspended t other live).congr (others t other)
  · refine congrArg some (Coroutines.ext rfl ?_ ?_)
    · funext t
      by_cases ht : t = s.current
      · subst ht
        simp only [Function.update_self, coroutines, h.current, if_true]
        congr 2
        exact (Layout.onStack_congr fun a inside => by simp [inside]).symm
      · simp only [Function.update_of_ne ht, coroutines, if_neg ht]
        rw [Layout.saved_congr (others t ht)]
    · funext a
      simp only [coroutines, Layout.onShared]
      split
      next here => simp [here]
      next => rfl

theorem Invariant.fork_refines (h : s.Invariant L) {t : Thread} {func arg : Word}
    {memory : Word → Word}
    {s' : Processor Thread} (step : s.next L (.fork t func arg memory) = some s') :
    s'.Invariant L ∧
      (s.coroutines L).next L (.fork t func arg memory) = some (s'.coroutines L) := by
  obtain ⟨dead, step⟩ := Option.ite_none_right_eq_some.mp step
  cases step
  obtain ⟨ready, saved⟩ := Layout.stackAllocate_saved (L := L) (t := t) func arg
    (m := fun a => if L.place a = .stack t then memory a else s.x.data.memory a)
  have other : t ≠ s.current := by
    rintro rfl
    rw [h.current] at dead
    cases dead
  have same : L.SameBut t s.x.data.memory (L.stackAllocate t func arg
      (L.new t fun a => if L.place a = .stack t then memory a else s.x.data.memory a)) := by
    apply Layout.SameBut.of_places
    intro a outside off _
    have top : a ≠ L.stackTop t := by
      rintro rfl
      exact off Layout.place_stackTop.1
    have bottom : a ≠ L.stack t := by
      rintro rfl
      exact off Layout.place_bottom
    rw [Layout.stackAllocate_outside outside, Layout.newStack, Function.update_of_ne bottom,
      Function.update_of_ne top, if_neg off]
  constructor
  · constructor
    · simp [Function.update_of_ne other.symm, h.current]
    · intro u hu live
      by_cases ht : u = t
      · subst ht
        exact ready
      · simp only [Function.update_of_ne ht] at live
        exact (h.suspended u hu live).congr (same.threads u ht)
  · have free : (s.coroutines L).context t = none := by simp [coroutines, dead]
    simp only [Coroutines.next, free, if_true]
    refine congrArg some (Coroutines.ext rfl ?_ same.shared.symm)
    funext u
    by_cases ht : u = t
    · subst ht
      simp only [Function.update_self, coroutines, if_true, if_neg other, saved]
      exact congrArg some (Layout.fresh_congr fun a inside => by simp [inside])
    · simp only [Function.update_of_ne ht, coroutines]
      rw [Layout.saved_congr (same.threads u ht),
        Layout.onStack_congr fun a inside => same.threads u ht a (.inr inside)]

theorem Invariant.delete_refines (h : s.Invariant L) {t : Thread} {s' : Processor Thread}
    (step : s.next L (.delete t) = some s') :
    s'.Invariant L ∧ (s.coroutines L).next L (.delete t) = some (s'.coroutines L) := by
  obtain ⟨⟨other, live⟩, step⟩ := Option.ite_none_right_eq_some.mp step
  cases step
  constructor
  · constructor
    · simp [Function.update_of_ne other.symm, h.current]
    · intro u hu alive
      by_cases ht : u = t
      · subst ht
        simp at alive
      · simp only [Function.update_of_ne ht] at alive
        exact h.suspended u hu alive
  · have there : (s.coroutines L).context t ≠ none := by simp [coroutines, live]
    simp only [Coroutines.next]
    rw [if_pos ⟨other, there⟩]
    refine congrArg some (Coroutines.ext rfl ?_ rfl)
    funext u
    by_cases ht : u = t
    · subst ht
      simp [coroutines]
    · simp only [Function.update_of_ne ht, coroutines]

/-- The current thread has called `SWITCH` for `t`: both sides agree on that. -/
theorem Invariant.calls_coroutines (h : s.Invariant L) {t : Thread} :
    (∃ c, (s.coroutines L).context s.current = some c ∧
      L.Calls s.current t c.reg c.eip c.stack ∧ (s.coroutines L).context t ≠ none) ↔
    L.Calls s.current t s.x.data.reg s.x.eip s.x.data.memory ∧ s.live t = true := by
  have own : (s.coroutines L).context s.current =
      some ⟨s.x.data.reg, s.x.eip, L.onStack s.current s.x.data.memory⟩ := by
    simp [coroutines, h.current]
  have there : (s.coroutines L).context t ≠ none ↔ s.live t = true := by
    simp [coroutines]
  rw [own, there]
  constructor
  · rintro ⟨c, same, calls, live⟩
    cases same
    exact ⟨Layout.calls_onStack.mp calls, live⟩
  · rintro ⟨calls, live⟩
    exact ⟨_, rfl, Layout.calls_onStack.mpr calls, live⟩

theorem Invariant.switch_refines (h : s.Invariant L) {t : Thread}
    (calls : L.Calls s.current t s.x.data.reg s.x.eip s.x.data.memory) (live : s.live t = true) :
    ∃ s', s.next L (.switch t) = some s' ∧ s'.Invariant L ∧
      (s.coroutines L).next L (.switch t) = some (s'.coroutines L) := by
  obtain ⟨m, x, runs, ⟨ready, left⟩, saves, entered, restores⟩ :=
    switch_run calls fun other => h.suspended t other live
  refine ⟨{ s with x, current := t }, ?_, ?_, ?_⟩
  · simp only [next, if_pos (And.intro calls live), runs, Option.map_some]
  · constructor
    · exact live
    · intro u hu alive
      refine Layout.Suspended.congr ?_ (restores.threads u hu)
      by_cases hs : u = s.current
      · subst hs
        exact ready
      · exact (h.sameBut saves hs alive).1
  · have own : (s.coroutines L).context s.current =
        some ⟨s.x.data.reg, s.x.eip, L.onStack s.current s.x.data.memory⟩ := by
      simp [coroutines, h.current]
    have there : (s.coroutines L).context t ≠ none := by simp [coroutines, live]
    have current : (s.coroutines L).current = s.current := rfl
    simp only [Coroutines.next, current, own, Option.bind_some]
    rw [if_pos ⟨Layout.calls_onStack.mpr calls, there⟩]
    refine congrArg some (Coroutines.ext rfl ?_ ?_)
    · funext u
      -- The thread that left, the one that goes on, and the others.
      by_cases hu : u = t
      · subst hu
        simp only [coroutines, live, if_true, entered]
        by_cases hs : u = s.current
        · subst hs
          rw [Function.update_self, left]
        · rw [Function.update_of_ne hs, (h.sameBut saves hs live).2]
          simp [live, hs]
      · simp only [coroutines, if_neg hu, Layout.saved_congr (restores.threads u hu)]
        by_cases hs : u = s.current
        · subst hs
          simp [left, h.current]
        · rw [Function.update_of_ne hs]
          cases alive : s.live u with
          | true => simp [hs, (h.sameBut saves hs alive).2]
          | false => simp
    · exact (restores.shared.trans saves.shared).symm

/-- One event, on the processor and on the coroutines. -/
theorem Invariant.next_refines (h : s.Invariant L) (e : SwitchEvent Thread) :
    (s.next L e).map (coroutines L) = (s.coroutines L).next L e ∧
      ∀ s', s.next L e = some s' → s'.Invariant L := by
  -- It is enough to know what happens where each side goes on.
  have both : (∀ s', s.next L e = some s' →
        s'.Invariant L ∧ (s.coroutines L).next L e = some (s'.coroutines L)) →
      (s.next L e = none → (s.coroutines L).next L e = none) →
      (s.next L e).map (coroutines L) = (s.coroutines L).next L e ∧
        ∀ s', s.next L e = some s' → s'.Invariant L := by
    intro steps stops
    refine ⟨?_, fun s' step => (steps s' step).1⟩
    cases outcome : s.next L e with
    | none => exact (stops outcome).symm
    | some s' => exact (steps s' outcome).2.symm
  cases e with
  | work reg eip memory =>
    apply both (fun s' => h.work_refines)
    intro stops
    cases stops
  | fork t func arg memory =>
    apply both (fun s' => h.fork_refines)
    intro stops
    have live : s.live t = true := by
      by_contra dead
      simp [next, dead] at stops
    simp [Coroutines.next, coroutines, live]
  | delete t =>
    apply both (fun s' => h.delete_refines)
    intro stops
    have busy : ¬ (t ≠ s.current ∧ s.live t = true) := by
      intro free
      simp only [next, if_pos free] at stops
      cases stops
    apply if_neg
    intro ⟨other, there⟩
    exact busy ⟨other, by simpa [coroutines] using there⟩
  | switch t =>
    by_cases guard : L.Calls s.current t s.x.data.reg s.x.eip s.x.data.memory ∧ s.live t = true
    · obtain ⟨s', step, inv, refines⟩ := h.switch_refines guard.1 guard.2
      apply both
      · intro s'' step'
        cases step.symm.trans step'
        exact ⟨inv, refines⟩
      · intro stops
        cases step.symm.trans stops
    · apply both
      · intro s' step
        simp only [next, if_neg guard] at step
        cases step
      · intro _
        by_contra goes
        obtain ⟨c', goes⟩ := Option.ne_none_iff_exists'.mp goes
        obtain ⟨c, own, goes⟩ := Option.bind_eq_some_iff.mp goes
        obtain ⟨calls, -⟩ := Option.ite_none_right_eq_some.mp goes
        exact guard (h.calls_coroutines.mp ⟨c, own, calls⟩)

end Processor

namespace Processor.Invariant

variable {s : Processor Thread}

theorem init (start : (processorMachine L).init s) : s.Invariant L := by
  have start : s.live = Function.update (fun _ => false) s.current true := start
  constructor
  · simp [start]
  · intro t other live
    simp [start, other] at live

theorem of_reachable (reached : (processorMachine L).Reachable s) : s.Invariant L :=
  reached.invariant (fun _ => init) fun e _ s' inv step => (inv.next_refines e).2 s' step

theorem run_refines (inv : s.Invariant L) (es : List (SwitchEvent Thread)) :
    ((processorMachine L).run es s).map (Processor.coroutines L) =
      (coroutineMachine L).run es (s.coroutines L) :=
  Machine.run_map (fun _ _ inv => (inv.next_refines _).1)
    (fun _ _ _ inv step => (inv.next_refines _).2 _ step) inv es

end Processor.Invariant

variable (L) in
/-- On the processor every thread goes on where it left off: the threads run as coroutines. -/
theorem switch_refines_coroutines (s : Processor Thread)
    (reached : (processorMachine L).Reachable s) (es : List (SwitchEvent Thread)) :
    ((processorMachine L).run es s).map (Processor.coroutines L) =
      (coroutineMachine L).run es (s.coroutines L) :=
  (Processor.Invariant.of_reachable reached).run_refines es

end System

/-- Two threads in a small memory. -/
def demoPlace (n : Nat) : Place Bool :=
  if n = 0x800 then .eaxSave
  else if 0x1000 ≤ n ∧ n < 0x1000 + 304 then .object false
  else if 0x2000 ≤ n ∧ n < 0x2000 + 304 then .object true
  else if 0x100000 ≤ n ∧ n < 0x108000 then .stack false
  else if 0x110000 ≤ n ∧ n < 0x118000 then .stack true
  else .shared

theorem demo_address {b n : Nat} (h : b + n < 2 ^ 32) :
    (BitVec.ofNat 32 b + BitVec.ofNat 32 n).toNat = b + n := by
  rw [← BitVec.ofNat_add, BitVec.toNat_ofNat, Nat.mod_eq_of_lt h]

/-- Every instruction takes eight bytes. -/
def demoLayout : Layout Bool where
  place a := demoPlace a.toNat
  object t := BitVec.ofNat 32 (cond t 0x2000 0x1000)
  stack t := BitVec.ofNat 32 (cond t 0x110000 0x100000)
  eaxSave := 0x800
  SWITCH := 0x100
  ThreadRoot := 0x400
  ThreadBegin := 0x600
  ThreadFinish := 0x700
  code a :=
    let instructions := if a.toNat < 0x400 then switchCode 0x800 else threadRootCode
    (instructions[(a.toNat - 0x100) % 0x300 / 8]?).map fun i => (i, 8)
  switch_loaded := Loaded.of_getElem 8 (by decide)
  root_loaded := Loaded.of_getElem 8 (by decide)
  object_aligned := by decide
  stack_aligned := by decide
  eaxSave_aligned := by decide
  place_object := by
    intro t k hk
    have small : k < 76 := hk
    cases t
    · rw [demo_address (by simp; omega)]
      unfold demoPlace
      rw [if_neg (by simp; omega), if_pos (by simp; omega)]
    · rw [demo_address (by simp; omega)]
      unfold demoPlace
      rw [if_neg (by simp; omega), if_neg (by simp; omega), if_pos (by simp; omega)]
  place_stack := by
    intro t k hk
    have small : k < 8192 := hk
    cases t
    · rw [demo_address (by simp; omega)]
      unfold demoPlace
      rw [if_neg (by simp; omega), if_neg (by simp; omega), if_neg (by simp; omega),
        if_pos (by simp; omega)]
    · rw [demo_address (by simp; omega)]
      unfold demoPlace
      rw [if_neg (by simp; omega), if_neg (by simp; omega), if_neg (by simp; omega),
        if_neg (by simp; omega), if_pos (by simp; omega)]
  place_eaxSave := by decide

/-- What thread `t` does until it is about to run `SWITCH`: it has put the arguments, the other
thread second, and its return address on its stack. -/
def demoWork (t u : Bool) (ebx back : Word) : SwitchEvent Bool :=
  let esp := demoLayout.stack t + 0x4000
  .work (Function.update (Function.update (fun _ => 0) .ebx ebx) .esp esp) demoLayout.SWITCH
    (Function.update (Function.update (Function.update (fun _ => 0) esp back)
      (esp + 4) (demoLayout.object t)) (esp + 8) (demoLayout.object u))

def demoStart : Processor Bool where
  x := ⟨⟨fun _ => 0, fun _ => 0⟩, 0⟩
  current := false
  live t := !t

/-- The first thread forks the second one and switches to it, and the second switches back. -/
def demoRun : List (SwitchEvent Bool) :=
  [.fork true 0x5000 7 (fun _ => 0), demoWork false true 5 0x300, .switch true,
    demoWork true false 6 0x310, .switch false]

theorem demoStart_init : (processorMachine demoLayout).init demoStart := by
  funext t
  cases t
  · rfl
  · rfl

theorem switch_refines_coroutines_back :
    ((((processorMachine demoLayout).run demoRun demoStart).map
      (Processor.coroutines demoLayout)).bind fun c => c.context false).map
        (fun c => (c.eip, c.reg .ebx)) = some (0x300, 5) := by
  rw [switch_refines_coroutines demoLayout demoStart (.init demoStart_init) demoRun]
  decide +kernel

end NachOS.Threads
