import NachOS.Lib.Machine
import NachOS.Machine.Translate

/-!
# The MIPS simulator (machine/mipssim.cc, machine/mipssim.h, machine/machine.cc)

`OneInstruction` fetches and decodes a word, computes what the instruction does
from the values of its operands (`execute`), and installs the result (`commit`).
A load is not installed: it goes to the `LoadReg`/`LoadValueReg` slot, and
`DelayedLoad` writes the register when the next instruction commits, or before
control passes to the kernel. The build is the one with `SIM_FIX`.

Registers are an array of 40 words; the indices that the code computes (register
fields of the instruction, the register number kept in `LoadReg`) are checked.
Left out: the debugging output of each instruction.
-/
namespace NachOS.Mips
open NachOS.Lib

inductive Op where
  | add | addi | addiu | addu | and | andi
  | beq | bgez | bgezal | bgtz | blez | bltz | bltzal | bne
  | div | divu | j | jal | jalr | jr
  | lb | lbu | lh | lhu | lui | lw | lwl | lwr
  | mfhi | mflo | mthi | mtlo | mult | multu | nor | or | ori
  /-- `OP_RFE`, which no table holds and no case handles. -/
  | rfe
  | sb | sh | sll | sllv | slt | slti | sltiu | sltu | sra | srav | srl | srlv
  | sub | subu | sw | swl | swr | xor | xori
  | syscall
  | unimp
  | res
  /-- The two values of `opTable` that ask for further decoding. -/
  | special | bcond
  deriving DecidableEq

inductive Format where
  | ifmt
  | jfmt
  | rfmt
  deriving DecidableEq

def opTable : List (Op × Format) :=
  [(.special, .rfmt), (.bcond, .ifmt), (.j, .jfmt), (.jal, .jfmt),
    (.beq, .ifmt), (.bne, .ifmt), (.blez, .ifmt), (.bgtz, .ifmt),
    (.addi, .ifmt), (.addiu, .ifmt), (.slti, .ifmt), (.sltiu, .ifmt),
    (.andi, .ifmt), (.ori, .ifmt), (.xori, .ifmt), (.lui, .ifmt),
    (.unimp, .ifmt), (.unimp, .ifmt), (.unimp, .ifmt), (.unimp, .ifmt),
    (.res, .ifmt), (.res, .ifmt), (.res, .ifmt), (.res, .ifmt),
    (.res, .ifmt), (.res, .ifmt), (.res, .ifmt), (.res, .ifmt),
    (.res, .ifmt), (.res, .ifmt), (.res, .ifmt), (.res, .ifmt),
    (.lb, .ifmt), (.lh, .ifmt), (.lwl, .ifmt), (.lw, .ifmt),
    (.lbu, .ifmt), (.lhu, .ifmt), (.lwr, .ifmt), (.res, .ifmt),
    (.sb, .ifmt), (.sh, .ifmt), (.swl, .ifmt), (.sw, .ifmt),
    (.res, .ifmt), (.res, .ifmt), (.swr, .ifmt), (.res, .ifmt),
    (.unimp, .ifmt), (.unimp, .ifmt), (.unimp, .ifmt), (.unimp, .ifmt),
    (.res, .ifmt), (.res, .ifmt), (.res, .ifmt), (.res, .ifmt),
    (.unimp, .ifmt), (.unimp, .ifmt), (.unimp, .ifmt), (.unimp, .ifmt),
    (.res, .ifmt), (.res, .ifmt), (.res, .ifmt), (.res, .ifmt)]

def specialTable : List Op :=
  [.sll, .res, .srl, .sra, .sllv, .res, .srlv, .srav,
    .jr, .jalr, .res, .res, .syscall, .unimp, .res, .res,
    .mfhi, .mthi, .mflo, .mtlo, .res, .res, .res, .res,
    .mult, .multu, .div, .divu, .res, .res, .res, .res,
    .add, .addu, .sub, .subu, .and, .or, .xor, .nor,
    .res, .res, .slt, .sltu, .res, .res, .res, .res,
    .res, .res, .res, .res, .res, .res, .res, .res,
    .res, .res, .res, .res, .res, .res, .res, .res]

structure Instruction where
  opCode : Op
  rs : Nat
  rt : Nat
  rd : Nat
  extra : Word
  deriving DecidableEq

/-- The immediate, target or shift amount. -/
def extraField (value : Word) : Format → Word
  | .ifmt =>
    let extra := value &&& 0xffff
    if extra &&& 0x8000 ≠ 0 then extra ||| 0xffff0000 else extra
  | .rfmt => value >>> 6 &&& 0x1f
  | .jfmt => value &&& 0x3ffffff

def bcondOp (value : Word) : Op :=
  let i := value &&& 0x1f0000
  if i = 0 then .bltz
  else if i = 0x10000 then .bgez
  else if i = 0x100000 then .bltzal
  else if i = 0x110000 then .bgezal
  else .unimp

/-- `Instruction::Decode`. -/
def decode (value : Word) : Exec Instruction := do
  let rs := (value >>> 21 &&& 0x1f).toNat
  let rt := (value >>> 16 &&& 0x1f).toNat
  let rd := (value >>> 11 &&& 0x1f).toNat
  match opTable[(value >>> 26 &&& 0x3f).toNat]? with
  | none => .error .outOfBounds
  | some (opCode, format) =>
    let extra := extraField value format
    if opCode = .special then
      match specialTable[(value &&& 0x3f).toNat]? with
      | none => .error .outOfBounds
      | some opCode => .ok { opCode, rs, rt, rd, extra }
    else if opCode = .bcond then .ok { opCode := bcondOp value, rs, rt, rd, extra }
    else .ok { opCode, rs, rt, rd, extra }

def SIGN_BIT : Word := 0x80000000

def IndexToAddr (x : Word) : Word := x <<< 2

/-- The loop of `Mult`, with `n` passes left: (hi, lo). -/
def multLoop : Nat → Word → Word → Word → Word → Word → Word × Word
  | 0, _, _, _, lo, hi => (hi, lo)
  | n + 1, a, bLo, bHi, lo, hi =>
    let odd := a &&& 1 ≠ 0
    let sum := lo + bLo
    let carried := if sum < bLo then hi + 1 else hi
    let lo := if odd then sum else lo
    let hi := if odd then carried + bHi else hi
    if odd ∧ a &&& 0xfffffffe = 0 then (hi, lo)
    else
      let bHi := bHi <<< 1
      let bHi := if bLo &&& 0x80000000 ≠ 0 then bHi ||| 1 else bHi
      multLoop n (a.sshiftRight 1) (bLo <<< 1) bHi lo hi

/-- `Mult`: (hi, lo). -/
def mult (a b : Word) (signedArith : Bool) : Word × Word :=
  if a = 0 ∨ b = 0 then (0, 0)
  else
    let negative := signedArith && (a.slt 0 != b.slt 0)
    let a := if signedArith && a.slt 0 then -a else a
    let b := if signedArith && b.slt 0 then -b else b
    let (hi, lo) := multLoop 32 a b 0 0 0
    if negative then
      let hi := ~~~hi
      let lo := ~~~lo + 1
      if lo = 0 then (hi + 1, lo) else (hi, lo)
    else (hi, lo)

/-- The values that an instruction reads. -/
structure Operands where
  rs : Word
  rt : Word
  hi : Word
  lo : Word
  nextPC : Word
  /-- What `LWL` and `LWR` merge into: the pending value if the pending load has
  the same target, else the target itself. -/
  merged : Word

/-- What an instruction does when it completes. -/
structure Effect where
  /-- The register that the instruction itself writes. -/
  write : Option (Nat × Word)
  hi : Word
  lo : Word
  /-- `nextLoadReg` and `nextLoadValue`. -/
  load : Nat × Word
  memory : Memory
  pcAfter : Word

namespace Effect

/-- No effect but the advance of the program counter. -/
def plain (v : Operands) (memory : Memory) : Effect where
  write := none
  hi := v.hi
  lo := v.lo
  load := (0, 0)
  memory := memory
  pcAfter := v.nextPC + 4

def assign (e : Effect) (register : Nat) (value : Word) : Effect :=
  { e with write := some (register, value) }

def hiLo (e : Effect) (hi lo : Word) : Effect := { e with hi, lo }

def goto (e : Effect) (pcAfter : Word) : Effect := { e with pcAfter }

/-- `pcAfter = registers[NextPCReg] + IndexToAddr(instr->extra)`, if taken. -/
def branch (e : Effect) (taken : Prop) [Decidable taken] (v : Operands) (extra : Word) : Effect :=
  if taken then { e with pcAfter := v.nextPC + IndexToAddr extra } else e

def delayed (e : Effect) (register : Nat) (value : Word) (memory : Memory) : Effect :=
  { e with load := (register, value), memory }

end Effect

/-- `LWL`, from the aligned word and the value merged into. -/
def lwlValue (byte value merged : Word) : Word :=
  match (3 - byte).toNat with
  | 0 => value
  | 1 => (merged &&& 0xff) ||| value <<< 8
  | 2 => (merged &&& 0xffff) ||| value <<< 16
  | _ => (merged &&& 0xffffff) ||| value <<< 24

def lwrValue (byte value merged : Word) : Word :=
  match (3 - byte).toNat with
  | 0 => (merged &&& 0xffffff00) ||| (value.sshiftRight 24 &&& 0xff)
  | 1 => (merged &&& 0xffff0000) ||| (value.sshiftRight 16 &&& 0xffff)
  | 2 => (merged &&& 0xff000000) ||| (value.sshiftRight 8 &&& 0xffffff)
  | _ => value

/-- `SWL`, from the aligned word and the register. -/
def swlValue (byte value rt : Word) : Word :=
  match (3 - byte).toNat with
  | 0 => rt
  | 1 => (value &&& 0xff000000) ||| (rt.sshiftRight 8 &&& 0xffffff)
  | 2 => (value &&& 0xffff0000) ||| (rt.sshiftRight 16 &&& 0xffff)
  | _ => (value &&& 0xffffff00) ||| (rt.sshiftRight 24 &&& 0xff)

def swrValue (byte value rt : Word) : Word :=
  match (3 - byte).toNat with
  | 0 => (value &&& 0xffffff) ||| rt <<< 24
  | 1 => (value &&& 0xffff) ||| rt <<< 16
  | 2 => (value &&& 0xff) ||| rt <<< 8
  | _ => rt

section Cases

variable (instr : Instruction) (v : Operands) (m : Memory)

/-- `LB` and `LBU`. -/
def loadByte : Attempt Effect := do
  let tmp := v.rs + instr.extra
  let (value, m) ← m.readMem tmp 1
  let value :=
    if value &&& 0x80 ≠ 0 ∧ instr.opCode = .lb then value ||| 0xffffff00 else value &&& 0xff
  .ok ((Effect.plain v m).delayed instr.rt value m)

/-- `LH` and `LHU`. -/
def loadHalf : Attempt Effect := do
  let tmp := v.rs + instr.extra
  if tmp &&& 1 ≠ 0 then .error (.exception .addressError tmp m)
  else
    let (value, m) ← m.readMem tmp 2
    let value :=
      if value &&& 0x8000 ≠ 0 ∧ instr.opCode = .lh then value ||| 0xffff0000 else value &&& 0xffff
    .ok ((Effect.plain v m).delayed instr.rt value m)

def loadWord : Attempt Effect := do
  let tmp := v.rs + instr.extra
  if tmp &&& 3 ≠ 0 then .error (.exception .addressError tmp m)
  else
    let (value, m) ← m.readMem tmp 4
    .ok ((Effect.plain v m).delayed instr.rt value m)

/-- `LWL` and `LWR`: an aligned read, merged into the target. -/
def loadPart (merge : Word → Word → Word → Word) : Attempt Effect := do
  let tmp := v.rs + instr.extra
  let byte := tmp &&& 3
  let (value, m) ← m.readMem (tmp - byte) 4
  .ok ((Effect.plain v m).delayed instr.rt (merge byte value v.merged) m)

/-- `SB`, `SH` and `SW`. -/
def store (size : Nat) : Attempt Effect := do
  let m ← m.writeMem (v.rs + instr.extra) size v.rt
  .ok (Effect.plain v m)

/-- `SWL` and `SWR`: an aligned read and an aligned write. -/
def storePart (merge : Word → Word → Word → Word) : Attempt Effect := do
  let tmp := v.rs + instr.extra
  let byte := tmp &&& 3
  let (value, m) ← m.readMem (tmp - byte) 4
  let m ← m.writeMem (tmp - byte) 4 (merge byte value v.rt)
  .ok (Effect.plain v m)

end Cases

/-- The switch of `OneInstruction`. Two cases read a register that they have just
written: a linking branch on R31, and a `JALR` whose source is its own target. -/
def execute (instr : Instruction) (v : Operands) (m : Memory) : Attempt Effect :=
  let e := Effect.plain v m
  let extra := instr.extra
  let link := v.nextPC + 4
  let linked := if instr.rs = 31 then link else v.rs
  match instr.opCode with
  | .add =>
    let sum := v.rs + v.rt
    if (v.rs ^^^ v.rt) &&& SIGN_BIT = 0 ∧ (v.rs ^^^ sum) &&& SIGN_BIT ≠ 0 then
      .error (.exception .overflow 0 m)
    else .ok (e.assign instr.rd sum)
  | .addi =>
    let sum := v.rs + extra
    if (v.rs ^^^ extra) &&& SIGN_BIT = 0 ∧ (extra ^^^ sum) &&& SIGN_BIT ≠ 0 then
      .error (.exception .overflow 0 m)
    else .ok (e.assign instr.rt sum)
  | .addiu => .ok (e.assign instr.rt (v.rs + extra))
  | .addu => .ok (e.assign instr.rd (v.rs + v.rt))
  | .and => .ok (e.assign instr.rd (v.rs &&& v.rt))
  | .andi => .ok (e.assign instr.rt (v.rs &&& (extra &&& 0xffff)))
  | .beq => .ok (e.branch (v.rs = v.rt) v extra)
  | .bgezal => .ok ((e.assign 31 link).branch (linked &&& SIGN_BIT = 0) v extra)
  | .bgez => .ok (e.branch (v.rs &&& SIGN_BIT = 0) v extra)
  | .bgtz => .ok (e.branch (0 < v.rs.toInt) v extra)
  | .blez => .ok (e.branch (v.rs.toInt ≤ 0) v extra)
  | .bltzal => .ok ((e.assign 31 link).branch (linked &&& SIGN_BIT ≠ 0) v extra)
  | .bltz => .ok (e.branch (v.rs &&& SIGN_BIT ≠ 0) v extra)
  | .bne => .ok (e.branch (v.rs ≠ v.rt) v extra)
  | .div =>
    if v.rt = 0 then .ok (e.hiLo 0 0)
    else if v.rs = SIGN_BIT ∧ v.rt = -1 then .error (.fault .arithmetic)
    else .ok (e.hiLo (v.rs.srem v.rt) (v.rs.sdiv v.rt))
  | .divu =>
    if v.rt = 0 then .ok (e.hiLo 0 0) else .ok (e.hiLo (v.rs % v.rt) (v.rs / v.rt))
  | .jal => .ok ((e.assign 31 link).goto ((e.pcAfter &&& 0xf0000000) ||| IndexToAddr extra))
  | .j => .ok (e.goto ((e.pcAfter &&& 0xf0000000) ||| IndexToAddr extra))
  | .jalr => .ok ((e.assign instr.rd link).goto (if instr.rs = instr.rd then link else v.rs))
  | .jr => .ok (e.goto v.rs)
  | .lb => loadByte instr v m
  | .lbu => loadByte instr v m
  | .lh => loadHalf instr v m
  | .lhu => loadHalf instr v m
  | .lui => .ok (e.assign instr.rt (extra <<< 16))
  | .lw => loadWord instr v m
  | .lwl => loadPart instr v m lwlValue
  | .lwr => loadPart instr v m lwrValue
  | .mfhi => .ok (e.assign instr.rd v.hi)
  | .mflo => .ok (e.assign instr.rd v.lo)
  | .mthi => .ok (e.hiLo v.rs v.lo)
  | .mtlo => .ok (e.hiLo v.hi v.rs)
  | .mult => .ok (e.hiLo (mult v.rs v.rt true).1 (mult v.rs v.rt true).2)
  | .multu => .ok (e.hiLo (mult v.rs v.rt false).1 (mult v.rs v.rt false).2)
  | .nor => .ok (e.assign instr.rd (~~~(v.rs ||| v.rt)))
  | .or => .ok (e.assign instr.rd (v.rs ||| v.rt))
  | .ori => .ok (e.assign instr.rt (v.rs ||| (extra &&& 0xffff)))
  | .sb => store instr v m 1
  | .sh => store instr v m 2
  | .sll => .ok (e.assign instr.rd (v.rt <<< extra.toNat))
  | .sllv => .ok (e.assign instr.rd (v.rt <<< (v.rs &&& 0x1f).toNat))
  | .slt => .ok (e.assign instr.rd (if v.rs.slt v.rt then 1 else 0))
  | .slti => .ok (e.assign instr.rt (if v.rs.slt extra then 1 else 0))
  | .sltiu => .ok (e.assign instr.rt (if v.rs < extra then 1 else 0))
  | .sltu => .ok (e.assign instr.rd (if v.rs < v.rt then 1 else 0))
  | .sra => .ok (e.assign instr.rd (v.rt.sshiftRight extra.toNat))
  | .srav => .ok (e.assign instr.rd (v.rt.sshiftRight (v.rs &&& 0x1f).toNat))
  -- `tmp` is an `int`, so the right shifts of SRL and SRLV are arithmetic too.
  | .srl => .ok (e.assign instr.rd (v.rt.sshiftRight extra.toNat))
  | .srlv => .ok (e.assign instr.rd (v.rt.sshiftRight (v.rs &&& 0x1f).toNat))
  | .sub =>
    let diff := v.rs - v.rt
    if (v.rs ^^^ v.rt) &&& SIGN_BIT ≠ 0 ∧ (v.rs ^^^ diff) &&& SIGN_BIT ≠ 0 then
      .error (.exception .overflow 0 m)
    else .ok (e.assign instr.rd diff)
  | .subu => .ok (e.assign instr.rd (v.rs - v.rt))
  | .sw => store instr v m 4
  | .swl => storePart instr v m swlValue
  | .swr => storePart instr v m swrValue
  | .syscall => .error (.exception .syscall 0 m)
  | .xor => .ok (e.assign instr.rd (v.rs ^^^ v.rt))
  | .xori => .ok (e.assign instr.rt (v.rs ^^^ (extra &&& 0xffff)))
  | .res => .error (.exception .illegalInstr 0 m)
  | .unimp => .error (.exception .illegalInstr 0 m)
  | .rfe => .error (.fault .assertion)
  | .special => .error (.fault .assertion)
  | .bcond => .error (.fault .assertion)

/-- `registers[NumTotalRegs]`. -/
abbrev Registers := Fin 40 → Word

/-- Reads as zero. -/
abbrev ZeroReg : Fin 40 := 0

def StackReg : Fin 40 := 29
def HiReg : Fin 40 := 32
def LoReg : Fin 40 := 33
def PCReg : Fin 40 := 34
def NextPCReg : Fin 40 := 35
def PrevPCReg : Fin 40 := 36
def LoadReg : Fin 40 := 37
def LoadValueReg : Fin 40 := 38
def BadVAddrReg : Fin 40 := 39

/-- An index into `registers`. -/
def index (i : Nat) : Exec (Fin 40) :=
  if h : i < 40 then .ok ⟨i, h⟩ else .error .outOfBounds

namespace Registers

variable (r : Registers)

/-- `Machine::DelayedLoad`. -/
def delayedLoad (nextReg nextValue : Word) : Exec Registers := do
  let i ← index (r LoadReg).toNat
  let r := Function.update r i (r LoadValueReg)
  let r := Function.update r LoadReg nextReg
  let r := Function.update r LoadValueReg nextValue
  .ok (Function.update r 0 0)

/-- The register that the instruction itself writes. -/
def install : Option (Nat × Word) → Exec Registers
  | none => .ok r
  | some (register, value) => do
    let i ← index register
    .ok (Function.update r i value)

/-- The end of `OneInstruction`. -/
def commit (e : Effect) : Exec Registers := do
  let r ← r.install e.write
  let r : Registers := Function.update (Function.update r HiReg e.hi) LoReg e.lo
  let r ← r.delayedLoad (BitVec.ofNat 32 e.load.1) e.load.2
  let r := Function.update r PrevPCReg (r PCReg)
  let r := Function.update r PCReg (r NextPCReg)
  .ok (Function.update r NextPCReg e.pcAfter)

end Registers

structure State where
  registers : Registers
  memory : Memory

/-- The control flow at the end of `OneInstruction`: back to `Run`, or at the
entry of `ExceptionHandler`. -/
inductive Outcome where
  | next (s : State)
  | exception (which : ExceptionType) (s : State)

namespace State

variable (s : State)

/-- The fetch: the memory after it, and the decoded instruction. -/
def fetch : Attempt (Instruction × Memory) := do
  let (raw, memory) ← s.memory.readMem (s.registers PCReg) 4
  let instr ← guarded (decode raw)
  .ok (instr, memory)

def operands (instr : Instruction) : Exec Operands := do
  let rs ← index instr.rs
  let rt ← index instr.rt
  let r := s.registers
  .ok {
    rs := r rs
    rt := r rt
    hi := r HiReg
    lo := r LoReg
    nextPC := r NextPCReg
    merged := if (r LoadReg).toNat = instr.rt then r LoadValueReg else r rt }

/-- `Machine::OneInstruction` up to an exception. -/
def attempt : Attempt State := do
  let (instr, memory) ← s.fetch
  let v ← guarded (s.operands instr)
  let e ← execute instr v memory
  let registers ← guarded (s.registers.commit e)
  .ok { registers, memory := e.memory }

/-- `Machine::RaiseException`, up to the call of `ExceptionHandler`. -/
def raiseException (badVAddr : Word) (memory : Memory) : Exec State := do
  let r : Registers := Function.update s.registers BadVAddrReg badVAddr
  let registers ← r.delayedLoad 0 0
  .ok { registers, memory }

/-- `Machine::OneInstruction`. -/
def oneInstruction : Exec Outcome :=
  match s.attempt with
  | .ok s' => .ok (.next s')
  | .error (.fault fault) => .error fault
  | .error (.exception which badVAddr memory) => do
    let s' ← s.raiseException badVAddr memory
    .ok (.exception which s')

end State

section Decode

/-- What `Decode` guarantees of any word. -/
structure Instruction.Decoded (instr : Instruction) : Prop where
  rs : instr.rs < 32
  rt : instr.rt < 32
  rd : instr.rd < 32
  handled : instr.opCode ≠ .rfe ∧ instr.opCode ≠ .special ∧ instr.opCode ≠ .bcond

theorem masked_lt (value : Word) (mask : Word) : (value &&& mask).toNat < mask.toNat + 1 := by
  rw [BitVec.toNat_and]
  exact Nat.lt_succ_of_le Nat.and_le_right

theorem bcondOp_handled (value : Word) :
    bcondOp value ≠ .rfe ∧ bcondOp value ≠ .special ∧ bcondOp value ≠ .bcond := by
  unfold bcondOp
  simp only
  split
  · decide
  · split
    · decide
    · split
      · decide
      · split <;> decide

theorem specialTable_handled :
    ∀ op ∈ specialTable, op ≠ .rfe ∧ op ≠ .special ∧ op ≠ .bcond := by
  decide

theorem opTable_no_rfe : ∀ info ∈ opTable, info.1 ≠ .rfe := by
  decide

/-- Both tables have an entry for each value of their field, and no entry is left
to the default branch. -/
theorem decode_decoded (value : Word) : ∃ instr, decode value = .ok instr ∧ instr.Decoded := by
  have rs : (value >>> 21 &&& 0x1f).toNat < 32 := masked_lt _ _
  have rt : (value >>> 16 &&& 0x1f).toNat < 32 := masked_lt _ _
  have rd : (value >>> 11 &&& 0x1f).toNat < 32 := masked_lt _ _
  have op : (value >>> 26 &&& 0x3f).toNat < opTable.length := masked_lt _ _
  have funct : (value &&& 0x3f).toNat < specialTable.length := masked_lt _ _
  unfold decode
  simp only
  rw [List.getElem?_eq_getElem op]
  simp only
  split
  next =>
    rw [List.getElem?_eq_getElem funct]
    exact ⟨_, rfl, rs, rt, rd, specialTable_handled _ (List.getElem_mem _)⟩
  next notSpecial =>
    split
    next => exact ⟨_, rfl, rs, rt, rd, bcondOp_handled value⟩
    next notBcond =>
      exact ⟨_, rfl, rs, rt, rd, opTable_no_rfe _ (List.getElem_mem _), notSpecial, notBcond⟩

end Decode

section Execute

variable {instr : Instruction} {v : Operands} {m : Memory}

/-- The registers that an effect names. -/
structure Effect.InRange (e : Effect) : Prop where
  write : ∀ register value, e.write = some (register, value) → register < 32
  load : e.load.1 < 32

/-- What the switch can end in: an effect on general registers, a division that
the host refuses, or an exception with `mainMemory` as it was. -/
def Sound (m : Memory) : Attempt Effect → Prop
  | .ok e => e.InRange
  | .error (.fault fault) => fault = .arithmetic
  | .error (.exception _ _ m') => m'.mainMemory = m.mainMemory

theorem Effect.plain_inRange (v : Operands) (m : Memory) : (Effect.plain v m).InRange :=
  ⟨fun _ _ h => by simp [plain] at h, by simp [plain]⟩

theorem Effect.InRange.assign {e : Effect} (h : e.InRange) {register : Nat} {value : Word}
    (general : register < 32) : (e.assign register value).InRange := by
  refine ⟨fun r x written => ?_, h.load⟩
  simp only [Effect.assign, Option.some.injEq, Prod.mk.injEq] at written
  omega

theorem Effect.InRange.branch {e : Effect} (h : e.InRange) {taken : Prop} [Decidable taken]
    {extra : Word} : (e.branch taken v extra).InRange := by
  unfold Effect.branch
  split
  · exact ⟨h.write, h.load⟩
  · exact h

theorem Effect.InRange.delayed {e : Effect} (h : e.InRange) {register : Nat} {value : Word}
    {m : Memory} (general : register < 32) : (e.delayed register value m).InRange :=
  ⟨h.write, general⟩

/-- A memory access, and what follows it when it succeeds. -/
theorem sound_read {addr : Word} {size : Nat} (sized : size = 1 ∨ size = 2 ∨ size = 4)
    {f : Word × Memory → Attempt Effect}
    (rest : ∀ value mmu, Sound m (f (value, { m with mmu }))) :
    Sound m (m.readMem addr size >>= f) := by
  obtain ⟨which, raised⟩ | ⟨value, mmu, done⟩ := readMem_cases m addr sized
  · rw [raised, Exec.error_bind]
    exact rfl
  · rw [done, Exec.ok_bind]
    exact rest value mmu

theorem sound_write {addr value : Word} {size : Nat} (sized : size = 1 ∨ size = 2 ∨ size = 4)
    {mmu : Mmu} {f : Memory → Attempt Effect} (rest : ∀ m', Sound m (f m')) :
    Sound m ({ m with mmu }.writeMem addr size value >>= f) := by
  obtain ⟨which, raised⟩ | ⟨m', done⟩ := writeMem_cases { m with mmu } addr value sized
  · rw [raised, Exec.error_bind]
    exact rfl
  · rw [done, Exec.ok_bind]
    exact rest m'

theorem loadByte_sound (target : instr.rt < 32) : Sound m (loadByte instr v m) :=
  sound_read (.inl rfl) fun _ _ => (Effect.plain_inRange _ _).delayed target

theorem loadHalf_sound (target : instr.rt < 32) : Sound m (loadHalf instr v m) := by
  unfold loadHalf
  simp only
  split
  · exact rfl
  · exact sound_read (.inr (.inl rfl)) fun _ _ => (Effect.plain_inRange _ _).delayed target

theorem loadWord_sound (target : instr.rt < 32) : Sound m (loadWord instr v m) := by
  unfold loadWord
  simp only
  split
  · exact rfl
  · exact sound_read (.inr (.inr rfl)) fun _ _ => (Effect.plain_inRange _ _).delayed target

theorem loadPart_sound (target : instr.rt < 32) (merge : Word → Word → Word → Word) :
    Sound m (loadPart instr v m merge) :=
  sound_read (.inr (.inr rfl)) fun _ _ => (Effect.plain_inRange _ _).delayed target

theorem store_sound {size : Nat} (sized : size = 1 ∨ size = 2 ∨ size = 4) :
    Sound m (store instr v m size) :=
  sound_write sized fun _ => Effect.plain_inRange _ _

/-- The second access of `SWL` and `SWR` fails with `mainMemory` still unchanged. -/
theorem storePart_sound (merge : Word → Word → Word → Word) :
    Sound m (storePart instr v m merge) :=
  sound_read (.inr (.inr rfl)) fun _ _ =>
    sound_write (.inr (.inr rfl)) fun _ => Effect.plain_inRange _ _

/-- An effect unless the test raises an exception. -/
theorem sound_unless {raises : Prop} [Decidable raises] {which : ExceptionType} {e : Effect}
    (inRange : e.InRange) :
    Sound m (if raises then .error (.exception which 0 m) else .ok e) := by
  split
  · exact rfl
  · exact inRange

theorem execute_sound (h : instr.Decoded) : Sound m (execute instr v m) := by
  have plain := Effect.plain_inRange v m
  have link : (31 : Nat) < 32 := by decide
  obtain ⟨-, rt, rd, notRfe, notSpecial, notBcond⟩ := h
  have moved : ∀ {e : Effect} {pcAfter : Word}, e.InRange → (e.goto pcAfter).InRange :=
    fun inRange => ⟨inRange.write, inRange.load⟩
  have product : ∀ {hi lo : Word}, ((Effect.plain v m).hiLo hi lo).InRange :=
    ⟨plain.write, plain.load⟩
  unfold execute
  cases op : instr.opCode
  case add | sub => exact sound_unless (plain.assign rd)
  case addi => exact sound_unless (plain.assign rt)
  case addiu | andi | lui | ori | slti | sltiu | xori => exact plain.assign rt
  case addu | and | mfhi | mflo | nor | or | sll | sllv | slt | sltu | sra | srav | srl | srlv
      | subu | xor => exact plain.assign rd
  case beq | bgez | bgtz | blez | bltz | bne => exact plain.branch
  case bgezal | bltzal => exact (plain.assign link).branch
  case j | jr => exact moved plain
  case jal => exact moved (plain.assign link)
  case jalr => exact moved (plain.assign rd)
  case div =>
    simp only
    split
    · exact product
    · split
      · exact rfl
      · exact product
  case divu =>
    simp only
    split
    · exact product
    · exact product
  case mthi | mtlo | mult | multu => exact product
  case lb | lbu => exact loadByte_sound rt
  case lh | lhu => exact loadHalf_sound rt
  case lw => exact loadWord_sound rt
  case lwl | lwr => exact loadPart_sound rt _
  case sb => exact store_sound (.inl rfl)
  case sh => exact store_sound (.inr (.inl rfl))
  case sw => exact store_sound (.inr (.inr rfl))
  case swl | swr => exact storePart_sound _
  case syscall | unimp | res => exact rfl
  case rfe => exact absurd op notRfe
  case special => exact absurd op notSpecial
  case bcond => exact absurd op notBcond

end Execute

namespace Registers

variable {r : Registers} {e : Effect}

/-- The slot of the pending load names a general register. -/
def SlotInRange (r : Registers) : Prop := (r LoadReg).toNat < 32

/-- `DelayedLoad` on a slot in range. -/
def loaded (r : Registers) (nextReg nextValue : Word) : Registers := fun i =>
  if i = 0 then 0
  else if i = LoadReg then nextReg
  else if i = LoadValueReg then nextValue
  else if i.val = (r LoadReg).toNat then r LoadValueReg
  else r i

/-- The instruction's own register write. -/
def written (r : Registers) : Option (Nat × Word) → Registers
  | none => r
  | some (register, value) => fun i => if i.val = register then value else r i

/-- `commit` on a slot in range. -/
def committed (r : Registers) (e : Effect) : Registers := fun i =>
  if i = PCReg then r NextPCReg
  else if i = NextPCReg then e.pcAfter
  else if i = PrevPCReg then r PCReg
  else if i = HiReg then e.hi
  else if i = LoReg then e.lo
  else if i = 0 then 0
  else if i = LoadReg then BitVec.ofNat 32 e.load.1
  else if i = LoadValueReg then e.load.2
  else if i.val = (r LoadReg).toNat then r LoadValueReg
  else r.written e.write i

theorem index_eq {i : Nat} (h : i < 40) : index i = .ok ⟨i, h⟩ :=
  dif_pos h

theorem delayedLoad_eq (slot : r.SlotInRange) (nextReg nextValue : Word) :
    r.delayedLoad nextReg nextValue = .ok (r.loaded nextReg nextValue) := by
  unfold SlotInRange at slot
  unfold delayedLoad
  rw [index_eq (by omega), Exec.ok_bind]
  refine congrArg Except.ok (funext fun i => ?_)
  have slots : (LoadReg : Fin 40).val = 37 ∧ (LoadValueReg : Fin 40).val = 38 := ⟨rfl, rfl⟩
  simp only [loaded, Function.update_apply, Fin.ext_iff, slots.1, slots.2]
  split_ifs <;> first | rfl | omega

theorem install_eq {write : Option (Nat × Word)}
    (inRange : ∀ register value, write = some (register, value) → register < 32) :
    r.install write = .ok (r.written write) := by
  cases write with
  | none => rfl
  | some w =>
    obtain ⟨register, value⟩ := w
    have := inRange register value rfl
    simp only [install]
    rw [index_eq (i := register) (by omega), Exec.ok_bind]
    refine congrArg Except.ok (funext fun i => ?_)
    simp only [written, Function.update_apply, Fin.ext_iff]

/-- Own writes do not reach the special registers. -/
theorem written_special {write : Option (Nat × Word)} {i : Fin 40}
    (inRange : ∀ register value, write = some (register, value) → register < 32)
    (special : 32 ≤ i.val) : r.written write i = r i := by
  cases write with
  | none => rfl
  | some w =>
    obtain ⟨register, value⟩ := w
    have := inRange register value rfl
    simp only [written]
    rw [if_neg (by omega)]

theorem loaded_special {i : Fin 40} (slot : r.SlotInRange) (special : 32 ≤ i.val)
    (notLoad : i ≠ LoadReg) (notValue : i ≠ LoadValueReg) (nextReg nextValue : Word) :
    r.loaded nextReg nextValue i = r i := by
  unfold SlotInRange at slot
  have notZero : i ≠ 0 := by
    rintro rfl
    simp at special
  unfold loaded
  rw [if_neg notZero, if_neg notLoad, if_neg notValue, if_neg (by omega)]

theorem commit_eq (slot : r.SlotInRange) (inRange : e.InRange) :
    r.commit e = .ok (r.committed e) := by
  have own : ∀ i : Fin 40, 32 ≤ i.val → r.written e.write i = r i :=
    fun i => written_special inRange.write
  -- The registers when `DelayedLoad` is called.
  generalize hmid : Function.update (Function.update (r.written e.write) HiReg e.hi) LoReg e.lo
    = mid
  have mid_apply : ∀ i, i ≠ LoReg → i ≠ HiReg → mid i = r.written e.write i := by
    intro i notLo notHi
    rw [← hmid, Function.update_of_ne notLo, Function.update_of_ne notHi]
  have keeps : ∀ i : Fin 40, 34 ≤ i.val → mid i = r i := by
    intro i high
    rw [mid_apply i (by rintro rfl; simp [LoReg] at high) (by rintro rfl; simp [HiReg] at high),
      own i (by omega)]
  have slot' : SlotInRange mid := by
    unfold SlotInRange
    rw [keeps LoadReg (by decide)]
    exact slot
  unfold commit
  rw [install_eq inRange.write, Exec.ok_bind]
  simp only [hmid]
  rw [delayedLoad_eq slot', Exec.ok_bind]
  refine congrArg Except.ok (funext fun i => ?_)
  have pc : loaded mid (BitVec.ofNat 32 e.load.1) e.load.2 PCReg = r PCReg := by
    rw [loaded_special slot' (by decide) (by decide) (by decide), keeps PCReg (by decide)]
  have nextPC : loaded mid (BitVec.ofNat 32 e.load.1) e.load.2 NextPCReg = r NextPCReg := by
    rw [loaded_special slot' (by decide) (by decide) (by decide), keeps NextPCReg (by decide)]
  have atNext : (NextPCReg : Fin 40) ≠ PrevPCReg := by decide
  unfold committed
  by_cases isNext : i = NextPCReg
  · subst isNext
    rw [Function.update_self, if_neg (by decide), if_pos rfl]
  by_cases isPC : i = PCReg
  · subst isPC
    rw [Function.update_of_ne isNext, Function.update_self, Function.update_of_ne atNext, nextPC,
      if_pos rfl]
  by_cases isPrev : i = PrevPCReg
  · subst isPrev
    rw [Function.update_of_ne isNext, Function.update_of_ne isPC, Function.update_self, pc,
      if_neg isPC, if_neg isNext, if_pos rfl]
  rw [Function.update_of_ne isNext, Function.update_of_ne isPC, Function.update_of_ne isPrev,
    if_neg isPC, if_neg isNext, if_neg isPrev]
  by_cases isHi : i = HiReg
  · subst isHi
    rw [loaded_special slot' (by decide) (by decide) (by decide), if_pos rfl, ← hmid,
      Function.update_of_ne (by decide), Function.update_self]
  by_cases isLo : i = LoReg
  · subst isLo
    rw [loaded_special slot' (by decide) (by decide) (by decide), if_neg isHi, if_pos rfl, ← hmid,
      Function.update_self]
  rw [if_neg isHi, if_neg isLo]
  unfold loaded
  rw [keeps LoadReg (by decide), keeps LoadValueReg (by decide), mid_apply i isLo isHi]

/-- `registers[n]`, for an index that was checked. -/
def get (r : Registers) (n : Nat) : Word := if h : n < 40 then r ⟨n, h⟩ else 0

theorem get_eq {n : Nat} (h : n < 40) : r.get n = r ⟨n, h⟩ :=
  dif_pos h

end Registers

namespace State

variable {s s' : State} {instr : Instruction}

/-- The operands of a decoded instruction. -/
def values (s : State) (instr : Instruction) : Operands where
  rs := s.registers.get instr.rs
  rt := s.registers.get instr.rt
  hi := s.registers HiReg
  lo := s.registers LoReg
  nextPC := s.registers NextPCReg
  merged := if (s.registers LoadReg).toNat = instr.rt then s.registers LoadValueReg
    else s.registers.get instr.rt

theorem operands_eq (h : instr.Decoded) : s.operands instr = .ok (s.values instr) := by
  have rs := h.rs
  have rt := h.rt
  unfold operands values
  rw [Registers.index_eq (by omega), Exec.ok_bind, Registers.index_eq (by omega), Exec.ok_bind,
    Registers.get_eq (by omega), Registers.get_eq (by omega)]

theorem fetch_cases (s : State) :
    (∃ which, s.fetch = .error (.exception which (s.registers PCReg) s.memory)) ∨
    (∃ instr mmu, s.fetch = .ok (instr, { s.memory with mmu }) ∧ instr.Decoded) := by
  unfold fetch
  have sized : 4 = 1 ∨ 4 = 2 ∨ 4 = 4 := .inr (.inr rfl)
  obtain ⟨which, raised⟩ | ⟨value, mmu, done⟩ :=
    readMem_cases s.memory (s.registers PCReg) sized
  · refine .inl ⟨which, ?_⟩
    rw [raised, Exec.error_bind]
  · obtain ⟨instr, decodes, decoded⟩ := decode_decoded value
    refine .inr ⟨instr, mmu, ?_, decoded⟩
    rw [done, Exec.ok_bind]
    simp only [decodes, guarded, Exec.ok_bind]

/-- After the fetch, an instruction is its effect on the operand values. -/
theorem attempt_fetched {memory : Memory} (slot : s.registers.SlotInRange)
    (fetched : s.fetch = .ok (instr, memory)) (decoded : instr.Decoded) :
    s.attempt = (execute instr (s.values instr) memory).map
      (fun e => ⟨s.registers.committed e, e.memory⟩) := by
  have sound := execute_sound (v := s.values instr) (m := memory) decoded
  unfold attempt
  rw [fetched, Exec.ok_bind]
  simp only [operands_eq decoded, guarded, Exec.ok_bind]
  cases executed : execute instr (s.values instr) memory with
  | error stop => rfl
  | ok e =>
    rw [executed] at sound
    rw [Exec.ok_bind, Registers.commit_eq slot sound]
    rfl

theorem fetch_congr {s₁ : State} (memory : s₁.memory = s.memory)
    (pc : s₁.registers PCReg = s.registers PCReg) : s₁.fetch = s.fetch := by
  unfold fetch
  rw [memory, pc]

/-- How `OneInstruction` can end, from any state with a slot in range. -/
theorem attempt_cases (slot : s.registers.SlotInRange) :
    (∃ e, s.attempt = .ok ⟨s.registers.committed e, e.memory⟩ ∧ e.InRange) ∨
    (∃ which badVAddr memory, s.attempt = .error (.exception which badVAddr memory) ∧
      memory.mainMemory = s.memory.mainMemory) ∨
    s.attempt = .error (.fault .arithmetic) := by
  obtain ⟨which, raised⟩ | ⟨instr, mmu, fetched, decoded⟩ := s.fetch_cases
  · refine .inr (.inl ⟨which, s.registers PCReg, s.memory, ?_, rfl⟩)
    unfold attempt
    rw [raised, Exec.error_bind]
  · have sound := execute_sound (v := s.values instr) (m := { s.memory with mmu }) decoded
    rw [attempt_fetched slot fetched decoded]
    match executed : execute instr (s.values instr) { s.memory with mmu } with
    | .ok e =>
      rw [executed] at sound
      exact .inl ⟨e, rfl, sound⟩
    | .error (.exception which badVAddr memory) =>
      rw [executed] at sound
      exact .inr (.inl ⟨which, badVAddr, memory, rfl, sound⟩)
    | .error (.fault fault) =>
      rw [executed] at sound
      cases sound
      exact .inr (.inr rfl)

end State

section Boundary

/-- The registers at an instruction boundary. -/
structure Registers.AtBoundary (r : Registers) : Prop where
  zero : r 0 = 0
  slot : r.SlotInRange

theorem Registers.loaded_atBoundary (r : Registers) : (r.loaded 0 0).AtBoundary where
  zero := rfl
  slot := by
    have : r.loaded 0 0 LoadReg = 0 := rfl
    unfold SlotInRange
    rw [this]
    decide

theorem Registers.AtBoundary.update {r : Registers} (h : r.AtBoundary) {i : Fin 40} (value : Word)
    (notZero : i ≠ 0) (notLoad : i ≠ LoadReg) : AtBoundary (Function.update r i value) where
  zero := by
    rw [Function.update_of_ne notZero.symm]
    exact h.zero
  slot := by
    unfold SlotInRange
    rw [Function.update_of_ne notLoad.symm]
    exact h.slot

theorem Registers.committed_atBoundary {r : Registers} {e : Effect} (inRange : e.InRange) :
    (r.committed e).AtBoundary := by
  refine ⟨rfl, ?_⟩
  have : r.committed e LoadReg = BitVec.ofNat 32 e.load.1 := rfl
  unfold SlotInRange
  rw [this, BitVec.toNat_ofNat]
  have := inRange.load
  omega

/-- `AddrSpace::InitRegisters`. -/
def initRegisters (numPages : CInt) : Registers :=
  let r : Registers := fun _ => 0
  let r := Function.update r PCReg 0
  let r := Function.update r NextPCReg 4
  Function.update r StackReg (numPages * BitVec.ofNat 32 PageSize - 16)

/-- What happens to the registers of a user program. -/
inductive UserEvent where
  | instruction
  /-- The instruction raises an exception, and the kernel returns with `r2`, the
  program counters and user memory as it left them. -/
  | handled (r2 pc nextPC prevPC : Word) (memory : Memory)
  /-- `CheckIfDue` fires handlers between two instructions; other threads may run
  before this one goes on. -/
  | interrupt (memory : Memory)

def State.next : UserEvent → State → Option State
  | .instruction, s =>
    match s.oneInstruction with
    | .ok (.next s') => some s'
    | _ => none
  | .handled r2 pc nextPC prevPC memory, s =>
    match s.oneInstruction with
    | .ok (.exception _ s') =>
      let r := Function.update s'.registers 2 r2
      let r := Function.update r PrevPCReg prevPC
      let r := Function.update r PCReg pc
      let r := Function.update r NextPCReg nextPC
      some { registers := r, memory }
    | _ => none
  | .interrupt memory, s =>
    match s.registers.delayedLoad 0 0 with
    | .ok registers => some { registers, memory }
    | .error _ => none

/-- Every run of a user program, over any contents of memory and any page tables. -/
def userMachine : Machine State UserEvent where
  init s := ∃ numPages, s.registers = initRegisters numPages
  next := State.next

variable {s s' : State}

theorem initRegisters_atBoundary (numPages : CInt) : (initRegisters numPages).AtBoundary := by
  have zero : Registers.AtBoundary (fun _ => 0) :=
    ⟨rfl, by
      unfold Registers.SlotInRange
      decide⟩
  exact ((zero.update 0 (by decide) (by decide)).update 4 (by decide) (by decide)).update _
    (by decide) (by decide)

/-- At the entry of the exception handler. -/
theorem State.raiseException_eq (slot : s.registers.SlotInRange) (badVAddr : Word)
    (memory : Memory) :
    s.raiseException badVAddr memory = .ok
      ⟨Function.update (s.registers.loaded 0 0) BadVAddrReg badVAddr, memory⟩ := by
  have slot' : Registers.SlotInRange (Function.update s.registers BadVAddrReg badVAddr) := by
    unfold Registers.SlotInRange
    rw [Function.update_of_ne (by decide)]
    exact slot
  simp only [raiseException]
  rw [Registers.delayedLoad_eq slot', Exec.ok_bind]
  congr 2
  funext i
  unfold Registers.SlotInRange at slot
  by_cases bad : i = BadVAddrReg
  · subst bad
    rw [Registers.loaded_special slot' (by decide) (by decide) (by decide), Function.update_self,
      Function.update_self]
  · rw [Function.update_of_ne bad]
    unfold Registers.loaded
    rw [Function.update_of_ne (show LoadReg ≠ BadVAddrReg by decide),
      Function.update_of_ne (show LoadValueReg ≠ BadVAddrReg by decide), Function.update_of_ne bad]

/-- How `OneInstruction` ends, with the state at the handler. -/
theorem State.oneInstruction_cases (slot : s.registers.SlotInRange) :
    (∃ e, s.oneInstruction = .ok (.next ⟨s.registers.committed e, e.memory⟩) ∧ e.InRange) ∨
    (∃ which badVAddr memory, s.oneInstruction = .ok (.exception which
        ⟨Function.update (s.registers.loaded 0 0) BadVAddrReg badVAddr, memory⟩) ∧
      memory.mainMemory = s.memory.mainMemory) ∨
    s.oneInstruction = .error .arithmetic := by
  unfold oneInstruction
  obtain ⟨e, done, inRange⟩ | ⟨which, badVAddr, memory, raised, same⟩ | fault := attempt_cases slot
  · rw [done]
    exact .inl ⟨e, rfl, inRange⟩
  · rw [raised]
    simp only [raiseException_eq slot, Exec.ok_bind]
    exact .inr (.inl ⟨which, badVAddr, memory, rfl, same⟩)
  · rw [fault]
    exact .inr (.inr rfl)

theorem State.next_atBoundary {event : UserEvent} (h : s.registers.AtBoundary)
    (happens : s.next event = some s') : s'.registers.AtBoundary := by
  cases event with
  | instruction =>
    simp only [next] at happens
    obtain ⟨e, done, inRange⟩ | ⟨which, badVAddr, memory, raised, -⟩ | fault :=
      oneInstruction_cases h.slot
    · rw [done] at happens
      cases happens
      exact Registers.committed_atBoundary inRange
    · rw [raised] at happens
      cases happens
    · rw [fault] at happens
      cases happens
  | handled r2 pc nextPC prevPC memory =>
    simp only [next] at happens
    obtain ⟨e, done, inRange⟩ | ⟨which, badVAddr, memory, raised, -⟩ | fault :=
      oneInstruction_cases h.slot
    · rw [done] at happens
      cases happens
    · rw [raised] at happens
      cases happens
      have settled := s.registers.loaded_atBoundary.update (i := BadVAddrReg) badVAddr
        (by decide) (by decide)
      have returned := (settled.update (i := 2) r2 (by decide) (by decide)).update (i := PrevPCReg)
        prevPC (by decide) (by decide)
      exact (returned.update (i := PCReg) pc (by decide) (by decide)).update nextPC
        (by decide) (by decide)
    · rw [fault] at happens
      cases happens
  | interrupt memory =>
    simp only [next, Registers.delayedLoad_eq h.slot] at happens
    cases happens
    exact s.registers.loaded_atBoundary

theorem State.atBoundary_of_reachable (h : userMachine.Reachable s) : s.registers.AtBoundary := by
  refine h.invariant (P := fun s => s.registers.AtBoundary) ?_ ?_
  · rintro s ⟨numPages, start⟩
    rw [start]
    exact initRegisters_atBoundary numPages
  · intro e s s' boundary happens
    exact next_atBoundary boundary happens

/-- The registers between two instructions, and the accesses of the next one. -/
structure State.RegistersSafe (s : State) : Prop where
  zero : s.registers 0 = 0
  slot : (s.registers LoadReg).toNat ≤ 31
  /-- No register index is out of range and no assertion fails, the default branch
  of the switch included; only the host's own division can stop the simulator. -/
  instruction : ∀ fault, s.oneInstruction = .error fault → fault = .arithmetic
  interrupt : ∃ registers, s.registers.delayedLoad 0 0 = .ok registers

/-- Whatever words are fetched, at every instruction boundary of every run. -/
theorem registers_safe (s : State) (reached : userMachine.Reachable s) : s.RegistersSafe := by
  have boundary := State.atBoundary_of_reachable reached
  refine ⟨boundary.zero, Nat.le_of_lt_succ boundary.slot, ?_, _,
    Registers.delayedLoad_eq boundary.slot 0 0⟩
  intro fault stopped
  obtain ⟨e, done, -⟩ | ⟨which, badVAddr, memory, raised, -⟩ | divides :=
    State.oneInstruction_cases boundary.slot
  · rw [done] at stopped
    cases stopped
  · rw [raised] at stopped
    cases stopped
  · rw [divides] at stopped
    cases stopped
    rfl

/-- Words at the start of physical memory, mapped at address 0. -/
def programMemory (words : List Word) : Memory where
  mainMemory := fun i => (words.getD (i / 4) 0).extractLsb' (8 * (i % 4)) 8
  mmu := .pageTable [⟨0, 0, true, false, false, false⟩]
  hostIsBigEndian := false

/-- `LW r1, 8(r0)` and a no-op; the word at address 8 is a syscall. -/
def loadProgram : State where
  registers := initRegisters 1
  memory := programMemory [0x8c010008, 0, 0x0000000c]

theorem registers_safe_load :
    ∃ s, userMachine.run [.instruction, .instruction,
        .handled 5 12 16 8 (programMemory [0x8c010008, 0, 0x0000000c])] loadProgram = some s ∧
      s.registers 1 = 0x0000000c ∧ s.registers 2 = 5 ∧ s.RegistersSafe := by
  have runs : (userMachine.run [.instruction, .instruction,
      .handled 5 12 16 8 (programMemory [0x8c010008, 0, 0x0000000c])] loadProgram).map
        (fun s => (s.registers 1, s.registers 2)) = some (0x0000000c, 5) := by
    decide +kernel
  obtain ⟨s, hs, shown⟩ := Option.map_eq_some_iff.mp runs
  obtain ⟨one, two⟩ := Prod.mk.inj shown
  have start : userMachine.Reachable loadProgram := Machine.Reachable.init ⟨1, rfl⟩
  exact ⟨s, hs, one, two, registers_safe s (start.run _ hs)⟩

end Boundary

section Restart

variable {s s' : State}

/-- Nothing that `OneInstruction` computes depends on the failing address. -/
def State.forget (s : State) : State :=
  { s with registers := Function.update s.registers BadVAddrReg 0 }

def Outcome.map (f : State → State) : Outcome → Outcome
  | .next s => .next (f s)
  | .exception which s => .exception which (f s)

theorem Registers.get_update_special {r : Registers} {i : Fin 40} {n : Nat} (special : 32 ≤ i.val)
    (general : n < 32) (value : Word) :
    Registers.get (Function.update r i value) n = r.get n := by
  have different : (⟨n, by omega⟩ : Fin 40) ≠ i := by
    intro same
    have : n = i.val := congrArg Fin.val same
    omega
  rw [Registers.get_eq (by omega), Registers.get_eq (by omega), Function.update_of_ne different]

theorem Registers.written_update_of_ne {r : Registers} {i j : Fin 40} (different : i ≠ j)
    (value : Word) (write : Option (Nat × Word)) :
    Registers.written (Function.update r j value) write i = r.written write i := by
  cases write with
  | none => exact Function.update_of_ne different _ _
  | some w =>
    simp only [Registers.written]
    rw [Function.update_of_ne different]

theorem Registers.committed_update_bad {r : Registers} {e : Effect} (slot : r.SlotInRange)
    (inRange : e.InRange) (value : Word) :
    Registers.committed (Function.update r BadVAddrReg value) e =
      Function.update (r.committed e) BadVAddrReg value := by
  have kept : ∀ i, i ≠ BadVAddrReg → Function.update r BadVAddrReg value i = r i :=
    fun i different => Function.update_of_ne different _ _
  funext i
  unfold Registers.SlotInRange at slot
  by_cases bad : i = BadVAddrReg
  · subst bad
    rw [Function.update_self]
    unfold Registers.committed
    rw [kept LoadReg (by decide)]
    rw [if_neg (by decide), if_neg (by decide), if_neg (by decide), if_neg (by decide),
      if_neg (by decide), if_neg (by decide), if_neg (by decide), if_neg (by decide),
      if_neg (by have : (BadVAddrReg : Fin 40).val = 39 := rfl; omega),
      Registers.written_special inRange.write (by decide), Function.update_self]
  · rw [Function.update_of_ne bad]
    unfold Registers.committed
    rw [kept NextPCReg (by decide), kept PCReg (by decide), kept LoadReg (by decide),
      kept LoadValueReg (by decide), Registers.written_update_of_ne bad]

theorem State.values_update_bad {instr : Instruction} (decoded : instr.Decoded) (value : Word) :
    State.values { s with registers := Function.update s.registers BadVAddrReg value } instr =
      s.values instr := by
  simp only [State.values]
  rw [Registers.get_update_special (by decide) decoded.rs,
    Registers.get_update_special (by decide) decoded.rt,
    Function.update_of_ne (show HiReg ≠ BadVAddrReg by decide),
    Function.update_of_ne (show LoReg ≠ BadVAddrReg by decide),
    Function.update_of_ne (show NextPCReg ≠ BadVAddrReg by decide),
    Function.update_of_ne (show LoadReg ≠ BadVAddrReg by decide),
    Function.update_of_ne (show LoadValueReg ≠ BadVAddrReg by decide)]

theorem State.attempt_update_bad (slot : s.registers.SlotInRange) (value : Word) :
    State.attempt { s with registers := Function.update s.registers BadVAddrReg value } =
      s.attempt.map
        (fun s => { s with registers := Function.update s.registers BadVAddrReg value }) := by
  have slot' : Registers.SlotInRange (Function.update s.registers BadVAddrReg value) := by
    unfold Registers.SlotInRange
    rw [Function.update_of_ne (by decide)]
    exact slot
  have sameFetch : State.fetch
      { s with registers := Function.update s.registers BadVAddrReg value } = s.fetch :=
    State.fetch_congr rfl (Function.update_of_ne (by decide : PCReg ≠ BadVAddrReg) value s.registers)
  obtain ⟨which, raised⟩ | ⟨instr, mmu, fetched, decoded⟩ := s.fetch_cases
  · unfold State.attempt
    rw [sameFetch, raised, Exec.error_bind, Exec.error_bind]
    rfl
  · have sound := execute_sound (v := s.values instr) (m := { s.memory with mmu }) decoded
    have other := State.attempt_fetched (s := { s with
      registers := Function.update s.registers BadVAddrReg value }) slot'
      (sameFetch.trans fetched) decoded
    rw [State.attempt_fetched slot fetched decoded, other, State.values_update_bad decoded]
    cases executed : execute instr (s.values instr) { s.memory with mmu } with
    | error stop => rfl
    | ok e =>
      rw [executed] at sound
      simp only [Except.map]
      rw [Registers.committed_update_bad slot sound]

/-- The failing address that an earlier exception left behind is not seen. -/
theorem State.oneInstruction_update_bad (slot : s.registers.SlotInRange) (value : Word) :
    (State.oneInstruction { s with
      registers := Function.update s.registers BadVAddrReg value }).map (Outcome.map forget) =
    s.oneInstruction.map (Outcome.map forget) := by
  have slot' : Registers.SlotInRange (Function.update s.registers BadVAddrReg value) := by
    unfold Registers.SlotInRange
    rw [Function.update_of_ne (by decide)]
    exact slot
  unfold State.oneInstruction
  rw [State.attempt_update_bad slot]
  match s.attempt with
  | .ok s' =>
    simp only [Except.map, Outcome.map, State.forget, Function.update_idem]
  | .error (.fault fault) => rfl
  | .error (.exception which badVAddr memory) =>
    simp only [Except.map]
    simp only [raiseException]
    rw [Function.update_idem]

/-- The state at the entry of `ExceptionHandler`, after an instruction of `s`. -/
structure Restartable (s s' : State) : Prop where
  pc : s'.registers PCReg = s.registers PCReg
  nextPC : s'.registers NextPCReg = s.registers NextPCReg
  hi : s'.registers HiReg = s.registers HiReg
  lo : s'.registers LoReg = s.registers LoReg
  mainMemory : s'.memory.mainMemory = s.memory.mainMemory
  /-- Only the pending load has been completed, and r0 is zero. -/
  general : ∀ i : Fin 40, i.val < 32 → s'.registers i =
    if i.val = 0 then 0
    else if i.val = (s.registers LoadReg).toNat then s.registers LoadValueReg
    else s.registers i
  /-- With any memory that the kernel leaves, the instruction at `PCReg` does what
  it does in the state before the exception with that load completed. -/
  restarts : ∀ memory,
    (State.oneInstruction { s' with memory }).map (Outcome.map State.forget) =
      (State.oneInstruction ⟨s.registers.loaded 0 0, memory⟩).map (Outcome.map State.forget)

/-- Every exception leaves a state from which the instruction can be restarted. -/
theorem exceptions_restartable (s : State) (slot : (s.registers LoadReg).toNat ≤ 31)
    (which : ExceptionType) (s' : State) (raised : s.oneInstruction = .ok (.exception which s')) :
    Restartable s s' := by
  have slot : s.registers.SlotInRange := Nat.lt_succ_of_le slot
  obtain ⟨e, done, -⟩ | ⟨which', badVAddr, memory, raises, same⟩ | divides :=
    State.oneInstruction_cases slot
  · rw [done] at raised
    cases raised
  · rw [raises] at raised
    cases raised
    have special : ∀ i : Fin 40, 32 ≤ i.val → i ≠ LoadReg → i ≠ LoadValueReg → i ≠ BadVAddrReg →
        Function.update (s.registers.loaded 0 0) BadVAddrReg badVAddr i = s.registers i := by
      intro i high notLoad notValue notBad
      rw [Function.update_of_ne notBad, Registers.loaded_special slot high notLoad notValue]
    refine {
      pc := special PCReg (by decide) (by decide) (by decide) (by decide)
      nextPC := special NextPCReg (by decide) (by decide) (by decide) (by decide)
      hi := special HiReg (by decide) (by decide) (by decide) (by decide)
      lo := special LoReg (by decide) (by decide) (by decide) (by decide)
      mainMemory := same
      general := ?_
      restarts := fun memory => State.oneInstruction_update_bad
        (s := ⟨s.registers.loaded 0 0, memory⟩) s.registers.loaded_atBoundary.slot badVAddr }
    intro i low
    have notBad : i ≠ BadVAddrReg := by
      rintro rfl
      simp [BadVAddrReg] at low
    have notLoad : i ≠ LoadReg := by
      rintro rfl
      simp [LoadReg] at low
    have notValue : i ≠ LoadValueReg := by
      rintro rfl
      simp [LoadValueReg] at low
    simp only [Function.update_of_ne notBad, Registers.loaded, notLoad, notValue, if_false]
    by_cases zero : i = 0
    · subst zero
      rfl
    · rw [if_neg zero, if_neg (Fin.val_ne_zero_iff.mpr zero)]
  · rw [divides] at raised
    cases raised

/-- `LW r1` pending, then `LW r2` at an unaligned address. -/
def unalignedLoad : State where
  registers := Function.update (Function.update (initRegisters 1) LoadReg 1) LoadValueReg 7
  memory := programMemory [0x8c020002]

theorem exceptions_restartable_unaligned :
    ∃ s', unalignedLoad.oneInstruction = .ok (.exception .addressError s') ∧
      s'.registers 1 = 7 ∧ Restartable unalignedLoad s' := by
  have raises : (match unalignedLoad.oneInstruction with
      | .ok (.exception .addressError s') => some (s'.registers 1)
      | _ => none) = some 7 := by
    decide +kernel
  split at raises
  next s' raised =>
    exact ⟨s', raised, Option.some.inj raises,
      exceptions_restartable unalignedLoad (by decide) .addressError s' raised⟩
  next => cases raises

end Restart

end NachOS.Mips
