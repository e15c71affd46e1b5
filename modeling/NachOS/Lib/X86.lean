import Mathlib.Logic.Function.Basic
import Mathlib.Data.BitVec

/-!
# A fragment of the 32-bit x86

Moves of words, the stack, calls through a register, and returns. The memory is the word at
each address. Only accesses to multiples of 4 are modelled, between which words do not overlap;
any other one is a fault here.

`Code` says which instruction lies at an address, and how many bytes it takes.
-/
namespace NachOS.Lib.X86

abbrev Word := BitVec 32

inductive Reg where
  | eax
  | ebx
  | ecx
  | edx
  | esi
  | edi
  | ebp
  | esp
  deriving DecidableEq

inductive Operand where
  | reg (r : Reg)
  /-- `disp(base)`. -/
  | mem (disp : Word) (base : Reg)
  | label (a : Word)
  deriving DecidableEq

inductive Op where
  | movl (src dst : Operand)
  | pushl (r : Reg)
  | popl (r : Reg)
  deriving DecidableEq

structure Data where
  reg : Reg → Word
  memory : Word → Word

namespace Data

def load (d : Data) (a : Word) : Option Word :=
  if a.toNat % 4 = 0 then some (d.memory a) else none

def store (d : Data) (a v : Word) : Option Data :=
  if a.toNat % 4 = 0 then some { d with memory := Function.update d.memory a v } else none

def setReg (d : Data) (r : Reg) (v : Word) : Data :=
  { d with reg := Function.update d.reg r v }

def read (d : Data) : Operand → Option Word
  | .reg r => some (d.reg r)
  | .mem disp base => d.load (d.reg base + disp)
  | .label a => d.load a

def write (d : Data) (v : Word) : Operand → Option Data
  | .reg r => some (d.setReg r v)
  | .mem disp base => d.store (d.reg base + disp) v
  | .label a => d.store a v

def push (d : Data) (v : Word) : Option Data :=
  let esp := d.reg .esp - 4
  (d.setReg .esp esp).store esp v

def pop (d : Data) : Option (Word × Data) :=
  (d.load (d.reg .esp)).map fun v => (v, d.setReg .esp (d.reg .esp + 4))

def exec (d : Data) : Op → Option Data
  | .movl src dst => (d.read src).bind fun v => d.write v dst
  | .pushl r => d.push (d.reg r)
  | .popl r => d.pop.map fun (v, d) => d.setReg r v

def execAll : List Op → Data → Option Data
  | [], d => some d
  | o :: os, d => (d.exec o).bind (execAll os)

variable {d : Data} {a v : Word} {r : Reg}

theorem load_aligned (aligned : a.toNat % 4 = 0) : d.load a = some (d.memory a) := by
  simp [load, aligned]

theorem store_aligned (aligned : a.toNat % 4 = 0) :
    d.store a v = some { d with memory := Function.update d.memory a v } := by
  simp [store, aligned]

theorem execAll_append {os os' : List Op} :
    execAll (os ++ os') d = (execAll os d).bind (execAll os') := by
  induction os generalizing d with
  | nil => rfl
  | cons o os ih =>
    simp only [List.cons_append, execAll, Option.bind_assoc]
    congr 1
    funext d'
    exact ih

end Data

/-- Adding a multiple of 4 keeps an address aligned. -/
theorem aligned_add {a b : Word} (ha : a.toNat % 4 = 0) (hb : b.toNat % 4 = 0) :
    (a + b).toNat % 4 = 0 := by
  rw [BitVec.toNat_add]
  omega

theorem aligned_sub {a b : Word} (ha : a.toNat % 4 = 0) (hb : b.toNat % 4 = 0) :
    (a - b).toNat % 4 = 0 := by
  rw [BitVec.toNat_sub]
  omega

inductive Instr where
  | op (o : Op)
  /-- `call *r`. -/
  | call (r : Reg)
  | ret
  deriving DecidableEq

/-- The instruction at each address, with its length. -/
abbrev Code := Word → Option (Instr × Word)

structure State where
  data : Data
  eip : Word

namespace State

variable (code : Code)

def step (s : State) : Option State :=
  match code s.eip with
  | none => none
  | some (.op o, length) => (s.data.exec o).map fun data => ⟨data, s.eip + length⟩
  | some (.call r, length) =>
    (s.data.push (s.eip + length)).map fun data => ⟨data, s.data.reg r⟩
  | some (.ret, _) => s.data.pop.map fun (target, data) => ⟨data, target⟩

def run : Nat → State → Option State
  | 0, s => some s
  | n + 1, s => (s.step code).bind (run n)

end State

/-- The instructions lie at consecutive addresses from `a` on. -/
def Loaded (code : Code) : Word → List Instr → Prop
  | _, [] => True
  | a, i :: is => ∃ length, code a = some (i, length) ∧ Loaded code (a + length) is

variable {code : Code} {s s' : State}

/-- Code whose instructions all have the same length. -/
theorem Loaded.of_getElem (length : Word) {is : List Instr} {a : Word}
    (h : ∀ k, (hk : k < is.length) →
      code (a + BitVec.ofNat 32 k * length) = some (is[k], length)) : Loaded code a is := by
  induction is generalizing a with
  | nil => trivial
  | cons i is ih =>
    have first := h 0 (Nat.zero_lt_succ _)
    rw [List.getElem_cons_zero] at first
    refine ⟨length, by simpa using first, ih ?_⟩
    intro k hk
    have later := h (k + 1) (by simpa using hk)
    rw [List.getElem_cons_succ] at later
    rw [← later, add_assoc]
    congr 2
    rw [BitVec.ofNat_add, add_mul, add_comm]
    congr 1
    exact (one_mul length).symm

theorem run_add {m n : Nat} : s.run code (m + n) = (s.run code m).bind (State.run code n) := by
  induction m generalizing s with
  | zero => simp [State.run]
  | succ m ih =>
    rw [Nat.add_right_comm]
    simp only [State.run, Option.bind_assoc]
    congr 1
    funext s'
    exact ih

/-- Code without calls and returns is executed from its first instruction to its last. -/
theorem run_ops {os : List Op} {is : List Instr} {a : Word} {d d' : Data}
    (loaded : Loaded code a (os.map .op ++ is)) (executes : d.execAll os = some d') :
    ∃ a', State.run code os.length ⟨d, a⟩ = some ⟨d', a'⟩ ∧ Loaded code a' is := by
  induction os generalizing a d with
  | nil =>
    cases executes
    exact ⟨a, rfl, loaded⟩
  | cons o os ih =>
    obtain ⟨length, here, rest⟩ := loaded
    obtain ⟨mid, first, executes⟩ := Option.bind_eq_some_iff.mp executes
    obtain ⟨a', runs, loaded⟩ := ih rest executes
    refine ⟨a', ?_, loaded⟩
    simp only [List.length_cons, State.run, State.step, here, first, Option.map_some,
      Option.bind_some, runs]

/-- A call pushes the address of the instruction after it. -/
theorem step_call {is : List Instr} {a : Word} {d : Data} {r : Reg}
    (loaded : Loaded code a (.call r :: is)) (aligned : (d.reg .esp).toNat % 4 = 0) :
    ∃ back, Loaded code back is ∧ State.step code ⟨d, a⟩ =
      some ⟨⟨Function.update d.reg .esp (d.reg .esp - 4),
        Function.update d.memory (d.reg .esp - 4) back⟩, d.reg r⟩ := by
  obtain ⟨length, here, rest⟩ := loaded
  refine ⟨a + length, rest, ?_⟩
  have stack := aligned_sub aligned (b := 4) (by decide)
  simp only [State.step, here, Data.push, Data.store_aligned stack, Option.map_some]
  rfl

theorem step_ret {is : List Instr} {a : Word} {d : Data}
    (loaded : Loaded code a (.ret :: is)) (aligned : (d.reg .esp).toNat % 4 = 0) :
    State.step code ⟨d, a⟩ =
      some ⟨d.setReg .esp (d.reg .esp + 4), d.memory (d.reg .esp)⟩ := by
  obtain ⟨length, here, -⟩ := loaded
  simp [State.step, here, Data.pop, Data.load_aligned aligned]

end NachOS.Lib.X86
