import Mathlib.Tactic.IntervalCases
import NachOS.Machine.Multiply

/-!
# Shifts, divisions and sums of the simulated machine (machine/mipssim.cc:157-183, 227-249, 470-544)

The meaning of these instructions is stated over the integers, with the operands read as
unsigned or as signed numbers, and compared with what the switch of `OneInstruction` does
with words of 32 bits and C variables of type `int`.
-/
namespace NachOS.Mips
open NachOS.Lib

namespace State

variable {s : State} {instr : Instruction} {memory : Memory}

theorem fetch_decoded (fetched : s.fetch = .ok (instr, memory)) : instr.Decoded := by
  obtain ⟨which, raised⟩ | ⟨instr', mmu, done, decoded⟩ := s.fetch_cases
  · rw [raised] at fetched
    cases fetched
  · rw [done] at fetched
    cases fetched
    exact decoded

/-- The three ends of an instruction, by what the switch computes. -/
theorem oneInstruction_done {e : Effect} (slot : s.registers.SlotInRange)
    (fetched : s.fetch = .ok (instr, memory))
    (executed : execute instr (s.values instr) memory = .ok e) :
    s.oneInstruction = .ok (.next ⟨s.registers.committed e, e.memory⟩) := by
  unfold oneInstruction
  rw [attempt_fetched slot fetched (fetch_decoded fetched), executed]
  rfl

theorem oneInstruction_fault {fault : Fault} (slot : s.registers.SlotInRange)
    (fetched : s.fetch = .ok (instr, memory))
    (executed : execute instr (s.values instr) memory = .error (.fault fault)) :
    s.oneInstruction = .error fault := by
  unfold oneInstruction
  rw [attempt_fetched slot fetched (fetch_decoded fetched), executed]
  rfl

theorem oneInstruction_raises {which : ExceptionType} {badVAddr : Word} {memory' : Memory}
    (slot : s.registers.SlotInRange) (fetched : s.fetch = .ok (instr, memory))
    (executed : execute instr (s.values instr) memory =
      .error (.exception which badVAddr memory')) :
    s.oneInstruction = .ok (.exception which
      ⟨Function.update (s.registers.loaded 0 0) BadVAddrReg badVAddr, memory'⟩) := by
  unfold oneInstruction
  rw [attempt_fetched slot fetched (fetch_decoded fetched), executed]
  simp only [Except.map, raiseException_eq slot, Exec.ok_bind]

end State

theorem general_ne_special {target : Nat} (general : target < 32) {i : Fin 40}
    (special : 32 ≤ i.val) : (⟨target, by omega⟩ : Fin 40) ≠ i := by
  intro same
  have : target = i.val := congrArg Fin.val same
  omega

/-- The general registers after an instruction. -/
theorem Registers.committed_get {r : Registers} {e : Effect} {n : Nat} (general : n < 32) :
    (r.committed e).get n = if n = 0 then 0 else if n = (r LoadReg).toNat then r LoadValueReg
      else (r.written e.write).get n := by
  rw [get_eq (by omega), get_eq (by omega)]
  unfold committed
  rw [if_neg (general_ne_special general (by decide)),
    if_neg (general_ne_special general (by decide)),
    if_neg (general_ne_special general (by decide)),
    if_neg (general_ne_special general (by decide)),
    if_neg (general_ne_special general (by decide))]
  by_cases zero : n = 0
  · subst zero
    rfl
  · rw [if_neg (fun same => zero (congrArg Fin.val same)),
      if_neg (general_ne_special general (by decide)),
      if_neg (general_ne_special general (by decide)), if_neg zero]

section Shifts

inductive ShiftOp where
  | sll | sllv | srl | srlv | sra | srav
  deriving DecidableEq

namespace ShiftOp

def opCode : ShiftOp → Op
  | sll => .sll
  | sllv => .sllv
  | srl => .srl
  | srlv => .srlv
  | sra => .sra
  | srav => .srav

/-- The amount, from the instruction word or from the low five bits of rs. -/
def amount (raw rs : Word) : ShiftOp → Nat
  | sll | srl | sra => raw.toNat / 2 ^ 6 % 32
  | sllv | srlv | srav => rs.toNat % 32

/-- What the instruction is to compute from rt and the amount. -/
def Meaning (rt : Word) (amount : Nat) (result : Word) : ShiftOp → Prop
  | sll | sllv => result.toNat = rt.toNat * 2 ^ amount % 2 ^ 32
  | srl | srlv => result.toNat = rt.toNat / 2 ^ amount
  | sra | srav => result.toInt = rt.toInt / 2 ^ amount

/-- The operands on which a right shift that copies the sign cannot be told from one that
shifts in zeros, for the two instructions that ask for zeros. -/
def Exact (rt : Word) (amount : Nat) : ShiftOp → Prop
  | srl | srlv => amount = 0 ∨ 0 ≤ rt.toInt
  | sll | sllv | sra | srav => True

/-- What the switch computes. -/
def result (rt : Word) (amount : Nat) : ShiftOp → Word
  | sll | sllv => rt <<< amount
  | srl | srlv | sra | srav => rt.sshiftRight amount

end ShiftOp

variable {raw rt : Word} {instr : Instruction} {amount : Nat}

theorem toNat_and_low (x : Word) (n : Nat) (mask : Word) (low : mask.toNat = 2 ^ n - 1) :
    (x &&& mask).toNat = x.toNat % 2 ^ n := by
  rw [BitVec.toNat_and, low]
  exact Nat.and_two_pow_sub_one_eq_mod x.toNat n

theorem toNat_and_five (x : Word) : (x &&& 0x1f).toNat = x.toNat % 32 :=
  toNat_and_low x 5 0x1f rfl

/-- The shift amount that `Decode` finds in an instruction of the special table. -/
theorem extraField_rfmt (raw : Word) : (extraField raw .rfmt).toNat = raw.toNat / 2 ^ 6 % 32 := by
  simp only [extraField]
  rw [toNat_and_five, BitVec.toNat_ushiftRight, Nat.shiftRight_eq_div_pow]

/-- Where the opcode of an instruction comes from, and its third field with it. -/
theorem decode_cases (decodes : decode raw = .ok instr) :
    (instr.opCode ∈ specialTable ∧ instr.extra = extraField raw .rfmt) ∨
    (instr.opCode = bcondOp raw ∧ instr.extra = extraField raw .ifmt) ∨
    (∃ format, (instr.opCode, format) ∈ opTable ∧ instr.extra = extraField raw format) := by
  have formats : ∀ info ∈ opTable, (info.1 = .special → info.2 = .rfmt) ∧
      (info.1 = .bcond → info.2 = .ifmt) := by decide
  unfold decode at decodes
  simp only at decodes
  split at decodes
  next => cases decodes
  next opCode format listed =>
    have member := List.mem_of_getElem? listed
    split at decodes
    next isSpecial =>
      have shift : format = .rfmt := (formats _ member).1 isSpecial
      split at decodes
      next => cases decodes
      next named =>
        cases decodes
        exact .inl ⟨List.mem_of_getElem? named, congrArg (extraField raw) shift⟩
    next =>
      split at decodes
      next isBcond =>
        have immediate : format = .ifmt := (formats _ member).2 isBcond
        cases decodes
        exact .inr (.inl ⟨rfl, congrArg (extraField raw) immediate⟩)
      next =>
        cases decodes
        exact .inr (.inr ⟨format, member, rfl⟩)

theorem bcondOp_branches (raw : Word) :
    bcondOp raw ∈ [Op.bltz, .bgez, .bltzal, .bgezal, .unimp] := by
  unfold bcondOp
  dsimp only
  split_ifs <;> decide

theorem ShiftOp.decode_amount {op : ShiftOp} (decodes : decode raw = .ok instr)
    (coded : instr.opCode = op.opCode) : instr.extra.toNat = raw.toNat / 2 ^ 6 % 32 := by
  obtain ⟨-, extra⟩ | ⟨branch, -⟩ | ⟨format, member, -⟩ := decode_cases decodes
  · rw [extra, extraField_rfmt]
  · have member := bcondOp_branches raw
    rw [← branch, coded] at member
    cases op <;> exact absurd member (by decide)
  · have elsewhere : ∀ info ∈ opTable, info.1 ≠ op.opCode := by
      cases op <;> decide
    exact absurd coded (elsewhere _ member)

/-- What the switch does for the six opcodes. -/
theorem ShiftOp.execute_eq {op : ShiftOp} (decodes : decode raw = .ok instr)
    (coded : instr.opCode = op.opCode) (v : Operands) (m : Memory) :
    execute instr v m = .ok ((Effect.plain v m).assign instr.rd
      (op.result v.rt (op.amount raw v.rs))) := by
  have extra := ShiftOp.decode_amount decodes coded
  have low := toNat_and_five v.rs
  unfold execute
  cases op with
  | sll | srl | sra => simp only [coded, opCode, result, amount, extra]
  | sllv | srlv | srav => simp only [coded, opCode, result, amount, low]

theorem sshiftRight_floor (rt : Word) (amount : Nat) :
    (rt.sshiftRight amount).toInt = rt.toInt / 2 ^ amount := by
  rw [BitVec.toInt_sshiftRight, Int.shiftRight_eq_div_pow]
  push_cast
  rfl

theorem shiftLeft_mod (rt : Word) (amount : Nat) :
    (rt <<< amount).toNat = rt.toNat * 2 ^ amount % 2 ^ 32 := by
  rw [BitVec.toNat_shiftLeft, Nat.shiftLeft_eq]

/-- A signed shift gives the unsigned quotient if and only if there is no sign to copy. -/
theorem sshiftRight_unsigned_iff (rt : Word) (amount : Nat) :
    (rt.sshiftRight amount).toNat = rt.toNat / 2 ^ amount ↔ amount = 0 ∨ 0 ≤ rt.toInt := by
  have floor := sshiftRight_floor rt amount
  have powPos : 0 < 2 ^ amount := Nat.two_pow_pos amount
  constructor
  · intro unsigned
    by_contra neither
    have some : amount ≠ 0 := fun zero => neither (.inl zero)
    have negative : rt.toInt < 0 := by
      by_contra sign
      exact neither (.inr (Int.not_lt.mp sign))
    have stays : (rt.sshiftRight amount).toInt < 0 := by
      rw [floor]
      exact Int.ediv_neg_of_neg_of_pos negative (by exact_mod_cast powPos)
    have two : 2 ≤ 2 ^ amount := by
      calc 2 = 2 ^ 1 := rfl
        _ ≤ 2 ^ amount := Nat.pow_le_pow_right (by omega) (by omega)
    have half : rt.toNat / 2 ^ amount ≤ rt.toNat / 2 := Nat.div_le_div_left two (by omega)
    have value := BitVec.toInt_eq_toNat_cond (rt.sshiftRight amount)
    have := rt.isLt
    rw [unsigned] at value
    split at value <;> omega
  · rintro (rfl | sign)
    · simp
    · have clear : rt.msb = false := by
        rw [BitVec.msb_eq_toInt, decide_eq_false_iff_not]
        omega
      rw [BitVec.sshiftRight_eq_of_msb_false clear, BitVec.toNat_ushiftRight,
        Nat.shiftRight_eq_div_pow]

theorem ShiftOp.meaning_iff (op : ShiftOp) (rt : Word) (amount : Nat) :
    op.Meaning rt amount (op.result rt amount) ↔ op.Exact rt amount := by
  cases op with
  | sll | sllv => exact iff_of_true (shiftLeft_mod rt amount) trivial
  | sra | srav => exact iff_of_true (sshiftRight_floor rt amount) trivial
  | srl | srlv => exact sshiftRight_unsigned_iff rt amount

theorem Effect.assign_inj {e : Effect} {register : Nat} {x y : Word}
    (same : e.assign register x = e.assign register y) : x = y := by
  have writes := congrArg Effect.write same
  simp only [Effect.assign, Option.some.injEq, Prod.mk.injEq, true_and] at writes
  exact writes

/-- Every shift instruction with every operand: the amount is below 32, and the destination
gets the value of the instruction's meaning exactly if no sign is copied in place of zeros. -/
theorem shifts_exact_iff (raw : Word) (instr : Instruction) (decodes : decode raw = .ok instr)
    (op : ShiftOp) (coded : instr.opCode = op.opCode) (v : Operands) (m : Memory) :
    op.amount raw v.rs < 32 ∧
    ((∃ result, execute instr v m = .ok ((Effect.plain v m).assign instr.rd result) ∧
      op.Meaning v.rt (op.amount raw v.rs) result) ↔ op.Exact v.rt (op.amount raw v.rs)) := by
  constructor
  · cases op <;> exact Nat.mod_lt _ (by decide)
  · rw [ShiftOp.execute_eq decodes coded, ← op.meaning_iff]
    constructor
    · rintro ⟨result, done, meaning⟩
      have same := Effect.assign_inj (Except.ok.inj done)
      rw [same]
      exact meaning
    · intro meaning
      exact ⟨_, rfl, meaning⟩

/-- `SRA r2, r1, 1`. -/
theorem shifts_exact_iff_sra :
    let v : Operands := ⟨0, 0x80000000, 0, 0, 4, 0⟩
    execute ⟨.sra, 0, 1, 2, 1⟩ v (programMemory []) =
      .ok ((Effect.plain v (programMemory [])).assign 2 0xc0000000) ∧
    ∃ result, execute ⟨.sra, 0, 1, 2, 1⟩ v (programMemory []) =
      .ok ((Effect.plain v (programMemory [])).assign 2 result) ∧
      ShiftOp.sra.Meaning 0x80000000 1 result :=
  ⟨rfl, (shifts_exact_iff 0x00011043 ⟨.sra, 0, 1, 2, 1⟩ rfl .sra rfl
    ⟨0, 0x80000000, 0, 0, 4, 0⟩ (programMemory [])).2.mpr trivial⟩

/-- `SRL r2, r1, 1` on the sign bit alone gives `0xc0000000`. -/
theorem srl_copies_sign :
    decode 0x00011042 = .ok ⟨.srl, 0, 1, 2, 1⟩ ∧ ShiftOp.srl.amount 0x00011042 0 = 1 ∧
    ¬∃ result, execute ⟨.srl, 0, 1, 2, 1⟩ ⟨0, 0x80000000, 0, 0, 4, 0⟩ (programMemory []) =
        .ok ((Effect.plain ⟨0, 0x80000000, 0, 0, 4, 0⟩ (programMemory [])).assign 2 result) ∧
      ShiftOp.srl.Meaning 0x80000000 1 result := by
  refine ⟨rfl, rfl, ?_⟩
  rintro ⟨result, done, meaning⟩
  have executed : execute ⟨.srl, 0, 1, 2, 1⟩ ⟨0, 0x80000000, 0, 0, 4, 0⟩ (programMemory []) =
      .ok ((Effect.plain ⟨0, 0x80000000, 0, 0, 4, 0⟩ (programMemory [])).assign 2 0xc0000000) := rfl
  rw [executed] at done
  have same : (0xc0000000 : Word) = result := Effect.assign_inj (Except.ok.inj done)
  rw [← same] at meaning
  simp only [ShiftOp.Meaning] at meaning
  exact absurd meaning (by decide)

end Shifts

section Divisions

/-- A division of the host, signed or not: the remainder and the quotient. It traps on a
divisor of 0, and on a quotient that does not fit. -/
def hostDivision (signed : Bool) (rs rt : Word) : Exec (Word × Word) :=
  if rt = 0 ∨ (signed ∧ rs = SIGN_BIT ∧ rt = -1) then .error .arithmetic
  else if signed then .ok (rs.srem rt, rs.sdiv rt)
  else .ok (rs % rt, rs / rt)

/-- What DIV (`signed`) and DIVU are to leave in Hi and Lo. -/
def Divided (signed : Bool) (rs rt hi lo : Word) : Prop :=
  if rt = 0 then hi = 0 ∧ lo = 0
  else rs = lo * rt + hi ∧
    if signed then hi.toInt.natAbs < rt.toInt.natAbs ∧ lo.toInt = rs.toInt.tdiv rt.toInt
    else hi.toNat < rt.toNat ∧ lo.toNat = rs.toNat / rt.toNat

def divisionOp (signed : Bool) : Op := if signed then .div else .divu

variable {signed : Bool} {rs rt hi lo : Word} {instr : Instruction}

/-- The switch divides on the host, unless the divisor is 0. -/
theorem execute_division (coded : instr.opCode = divisionOp signed) (v : Operands) (m : Memory) :
    execute instr v m = if v.rt = 0 then .ok ((Effect.plain v m).hiLo 0 0)
      else guarded (hostDivision signed v.rs v.rt) >>=
        fun hiLo => .ok ((Effect.plain v m).hiLo hiLo.1 hiLo.2) := by
  unfold execute hostDivision
  cases signed with
  | true =>
    simp only [coded, divisionOp, if_true, true_and]
    by_cases zero : v.rt = 0
    · rw [if_pos zero, if_pos zero]
    · rw [if_neg zero, if_neg zero]
      by_cases ends : v.rs = SIGN_BIT ∧ v.rt = -1
      · rw [if_pos ends, if_pos (.inr ends)]
        rfl
      · rw [if_neg ends, if_neg (by simp only [zero, ends, or_self, not_false_eq_true])]
        rfl
  | false =>
    simp only [coded, divisionOp, Bool.false_eq_true, if_false, false_and, or_false]
    split
    · rfl
    · rfl

theorem sdiv_mul_add_srem (rs rt : Word) (fits : rs ≠ SIGN_BIT ∨ rt ≠ -1) :
    rs = rs.sdiv rt * rt + rs.srem rt := by
  apply BitVec.eq_of_toInt_eq
  have quotient := BitVec.toInt_sdiv_of_ne_or_ne rs rt fits
  rw [BitVec.toInt_add, BitVec.toInt_mul, quotient, BitVec.toInt_srem, Int.bmod_add_bmod,
    Int.tdiv_mul_add_tmod]
  exact (int32_of_range (CInt.range rs).1 (CInt.range rs).2).symm

theorem udiv_mul_add_umod (rs rt : Word) : rs = rs / rt * rt + rs % rt := by
  apply BitVec.eq_of_toNat_eq
  rw [BitVec.toNat_add, BitVec.toNat_mul, BitVec.toNat_udiv, BitVec.toNat_umod, Nat.mod_add_mod,
    Nat.div_add_mod', Nat.mod_eq_of_lt rs.isLt]

/-- A host division that does not trap leaves what the instruction is to leave. -/
theorem hostDivision_divided (nonzero : rt ≠ 0)
    (done : hostDivision signed rs rt = .ok (hi, lo)) : Divided signed rs rt hi lo := by
  unfold hostDivision at done
  unfold Divided
  rw [if_neg nonzero]
  split at done
  next => cases done
  next fits =>
    cases signed with
    | true =>
      cases done
      have fits : rs ≠ SIGN_BIT ∨ rt ≠ -1 := by
        by_contra both
        simp only [not_or, ne_eq, not_not] at both
        exact fits (.inr ⟨rfl, both⟩)
      have divisor : 0 < rt.toInt.natAbs := by
        have : rt.toInt ≠ 0 := fun zero => nonzero (BitVec.eq_of_toInt_eq zero)
        omega
      refine ⟨sdiv_mul_add_srem rs rt fits, ?_, BitVec.toInt_sdiv_of_ne_or_ne rs rt fits⟩
      rw [BitVec.toInt_srem, Int.natAbs_tmod]
      exact Nat.mod_lt _ divisor
    | false =>
      cases done
      have divisor : 0 < rt.toNat := by
        have : rt.toNat ≠ 0 := fun zero => nonzero (BitVec.eq_of_toNat_eq zero)
        omega
      refine ⟨udiv_mul_add_umod rs rt, ?_, BitVec.toNat_udiv⟩
      rw [BitVec.toNat_umod]
      exact Nat.mod_lt _ divisor

/-- A DIV or DIVU at the program counter of any state leaves the quotient and the
remainder, and the simulator goes on, exactly if the host can represent the quotient. -/
theorem divisions_exact_iff (s : State) (slot : (s.registers LoadReg).toNat ≤ 31)
    (instr : Instruction) (memory : Memory) (fetched : s.fetch = .ok (instr, memory))
    (signed : Bool) (coded : instr.opCode = divisionOp signed) :
    (∃ s', s.oneInstruction = .ok (.next s') ∧
      Divided signed (s.values instr).rs (s.values instr).rt (s'.registers HiReg)
        (s'.registers LoReg)) ↔
    ¬(signed = true ∧ (s.values instr).rs.toInt = -2 ^ 31 ∧ (s.values instr).rt.toInt = -1) := by
  have slot : s.registers.SlotInRange := Nat.lt_succ_of_le slot
  have executed := execute_division coded (s.values instr) memory
  generalize operands : s.values instr = v at executed ⊢
  have ends : (signed = true ∧ v.rs.toInt = -2 ^ 31 ∧ v.rt.toInt = -1) ↔
      (signed = true ∧ v.rs = SIGN_BIT ∧ v.rt = -1) := by
    have minimum : (SIGN_BIT : Word).toInt = -2 ^ 31 := rfl
    have minusOne : (-1 : Word).toInt = -1 := rfl
    rw [← minimum, ← minusOne, BitVec.toInt_inj, BitVec.toInt_inj]
  rw [ends]
  by_cases zero : v.rt = 0
  · rw [if_pos zero, ← operands] at executed
    have done := State.oneInstruction_done slot fetched executed
    refine iff_of_true ⟨_, done, ?_⟩ ?_
    · unfold Divided
      rw [if_pos zero]
      exact ⟨rfl, rfl⟩
    · rintro ⟨-, -, minusOne⟩
      rw [zero] at minusOne
      exact absurd minusOne (by decide)
  · rw [if_neg zero] at executed
    by_cases traps : signed = true ∧ v.rs = SIGN_BIT ∧ v.rt = -1
    · have host : hostDivision signed v.rs v.rt = .error .arithmetic := if_pos (.inr traps)
      rw [host, ← operands] at executed
      have fault := State.oneInstruction_fault slot fetched executed
      refine iff_of_false ?_ (fun fits => fits traps)
      rintro ⟨s', done, -⟩
      rw [fault] at done
      cases done
    · obtain ⟨⟨hi, lo⟩, host⟩ : ∃ hiLo, hostDivision signed v.rs v.rt = .ok hiLo := by
        unfold hostDivision
        rw [if_neg (fun either => either.elim zero traps)]
        split
        · exact ⟨_, rfl⟩
        · exact ⟨_, rfl⟩
      rw [host, ← operands] at executed
      have done := State.oneInstruction_done slot fetched executed
      exact iff_of_true ⟨_, done, hostDivision_divided zero host⟩ traps

/-- `DIV r1, r2` with these contents of the registers. -/
def dividing (r1 r2 : Word) : State where
  registers := fun i => if i.val = 1 then r1 else if i.val = 2 then r2 else initRegisters 1 i
  memory := programMemory [0x0022001a]

theorem divisions_exact_iff_truncates :
    ∃ s', (dividing (-7) 2).oneInstruction = .ok (.next s') ∧ s'.registers LoReg = -3 ∧
      Divided true (-7) 2 (s'.registers HiReg) (s'.registers LoReg) := by
  obtain ⟨s', done, divided⟩ := (divisions_exact_iff (dividing (-7) 2) (by decide)
    ⟨.div, 1, 2, 0, 0⟩ _ rfl true rfl).mpr (by decide)
  have quotient : s'.registers LoReg = -3 := by
    cases done
    rfl
  exact ⟨s', done, quotient, divided⟩

/-- `LUI r1, 0x8000`, `ADDIU r2, r0, -1` and `DIV r1, r2`. -/
def dividingProgram : State where
  registers := initRegisters 1
  memory := programMemory [0x3c018000, 0x2402ffff, 0x0022001a]

/-- A user program that stops the simulator. -/
theorem division_traps :
    ∃ s, userMachine.run [.instruction, .instruction] dividingProgram = some s ∧
      s.registers 1 = SIGN_BIT ∧ s.registers 2 = -1 ∧ s.oneInstruction = .error .arithmetic ∧
      ¬∃ s', s.oneInstruction = .ok (.next s') ∧
        Divided true (s.registers 1) (s.registers 2) (s'.registers HiReg) (s'.registers LoReg) := by
  have runs : (userMachine.run [.instruction, .instruction] dividingProgram).map
      (fun s => (s.registers 1, s.registers 2, match s.oneInstruction with
        | .error fault => some fault
        | .ok _ => none)) = some (SIGN_BIT, -1, some .arithmetic) := by
    decide +kernel
  obtain ⟨s, reached, shown⟩ := Option.map_eq_some_iff.mp runs
  obtain ⟨one, rest⟩ := Prod.mk.inj shown
  obtain ⟨two, stops⟩ := Prod.mk.inj rest
  have traps : s.oneInstruction = .error .arithmetic := by
    split at stops
    next fault stopped =>
      cases stops
      exact stopped
    next => cases stops
  refine ⟨s, reached, one, two, traps, ?_⟩
  rintro ⟨s', done, -⟩
  rw [traps] at done
  cases done

end Divisions

section Sums

/-- The additions and subtractions. -/
inductive SumOp where
  | add | addi | sub | addu | addiu | subu
  deriving DecidableEq

namespace SumOp

def opCode : SumOp → Op
  | add => .add
  | addi => .addi
  | sub => .sub
  | addu => .addu
  | addiu => .addiu
  | subu => .subu

/-- The ones that check for overflow. -/
def Traps : SumOp → Prop
  | add | addi | sub => True
  | addu | addiu | subu => False

/-- The register that gets the result. -/
def target (instr : Instruction) : SumOp → Nat
  | add | sub | addu | subu => instr.rd
  | addi | addiu => instr.rt

/-- The exact result, of the operands and of the immediate as signed numbers. -/
def exact (rs rt : Int) (immediate : BitVec 16) : SumOp → Int
  | add | addu => rs + rt
  | addi | addiu => rs + immediate.toInt
  | sub | subu => rs - rt

end SumOp

/-- The values of an `int`. -/
def Overflows (x : Int) : Prop := x < -2 ^ 31 ∨ 2 ^ 31 ≤ x

variable {raw : Word} {instr : Instruction}

/-- The sign test of the overflow checks. -/
theorem sign_xor_iff (x y : Word) :
    (x ^^^ y) &&& SIGN_BIT ≠ 0 ↔ ¬(x.toInt < 0 ↔ y.toInt < 0) := by
  unfold SIGN_BIT
  rw [and_sign_ne_zero_iff, BitVec.msb_xor, BitVec.msb_eq_toInt, BitVec.msb_eq_toInt]
  by_cases hx : x.toInt < 0 <;> by_cases hy : y.toInt < 0 <;> simp [hx, hy]

/-- Both operands have one sign and the sum has another. -/
theorem add_overflows_iff (x y : Word) :
    ((x ^^^ y) &&& SIGN_BIT = 0 ∧ (x ^^^ (x + y)) &&& SIGN_BIT ≠ 0) ↔
      Overflows (x.toInt + y.toInt) := by
  have same := (sign_xor_iff x y).not
  rw [not_not, not_not] at same
  rw [same, sign_xor_iff, BitVec.toInt_add, Int.bmod_def]
  unfold Overflows
  have := CInt.range x
  have := CInt.range y
  norm_num
  split <;> omega

/-- The operands have different signs and the difference has not that of the first. -/
theorem sub_overflows_iff (x y : Word) :
    ((x ^^^ y) &&& SIGN_BIT ≠ 0 ∧ (x ^^^ (x - y)) &&& SIGN_BIT ≠ 0) ↔
      Overflows (x.toInt - y.toInt) := by
  rw [sign_xor_iff, sign_xor_iff, BitVec.toInt_sub, Int.bmod_def]
  unfold Overflows
  have := CInt.range x
  have := CInt.range y
  norm_num
  split <;> omega

/-- The third field of an immediate instruction: 16 bits, sign-extended. -/
theorem extraField_ifmt (raw : Word) :
    extraField raw .ifmt = (raw.setWidth 16).signExtend 32 := by
  have bit : raw &&& 0xffff &&& 0x8000 ≠ 0 ↔ raw.getLsbD 15 = true := by
    have half : raw &&& 0xffff &&& 0x8000 = raw &&& BitVec.twoPow 32 15 := by
      rw [BitVec.and_assoc]
      rfl
    rw [half, BitVec.and_twoPow]
    split
    next set => exact iff_of_true (by decide) set
    next clear => exact iff_of_false (fun differ => differ rfl) clear
  simp only [extraField]
  apply BitVec.eq_of_getLsbD_eq
  intro i hi
  have extended : ((raw.setWidth 16).signExtend 32).getLsbD i =
      if i < 16 then raw.getLsbD i else raw.getLsbD 15 := by
    rw [BitVec.getLsbD_signExtend, BitVec.msb_setWidth]
    simp only [BitVec.getLsbD_setWidth]
    split <;> simp [*]
  rw [extended]
  split
  next set =>
    rw [bit.mp set]
    interval_cases i <;> simp
  next clear =>
    have sign : raw.getLsbD 15 = false := by
      rw [← Bool.not_eq_true, ← bit]
      exact clear
    rw [sign]
    interval_cases i <;> simp

theorem SumOp.decode_immediate {op : SumOp} (decodes : decode raw = .ok instr)
    (coded : instr.opCode = op.opCode) (immediate : op = .addi ∨ op = .addiu) :
    instr.extra.toInt = (raw.setWidth 16).toInt := by
  have value : (extraField raw .ifmt).toInt = (raw.setWidth 16).toInt := by
    rw [extraField_ifmt]
    exact BitVec.toInt_signExtend_of_le (by omega)
  obtain ⟨member, -⟩ | ⟨-, extra⟩ | ⟨format, member, extra⟩ := decode_cases decodes
  · rw [coded] at member
    rcases immediate with rfl | rfl <;> exact absurd member (by decide)
  · rw [extra, value]
  · have formats : ∀ info ∈ opTable, info.1 = .addi ∨ info.1 = .addiu → info.2 = .ifmt := by
      decide
    have isImmediate : format = .ifmt := by
      apply formats _ member
      rcases immediate with rfl | rfl
      · exact .inl coded
      · exact .inr coded
    rw [extra, isImmediate, value]

namespace SumOp

variable {op : SumOp}

/-- The exact result of an instruction word with these operands. -/
def result (op : SumOp) (raw : Word) (v : Operands) : Int :=
  op.exact v.rs.toInt v.rt.toInt (raw.setWidth 16)

theorem addi_overflows_iff (x immediate : Word) :
    ((x ^^^ immediate) &&& SIGN_BIT = 0 ∧ (immediate ^^^ (x + immediate)) &&& SIGN_BIT ≠ 0) ↔
      Overflows (x.toInt + immediate.toInt) := by
  rw [BitVec.xor_comm x, BitVec.add_comm x, add_overflows_iff, Int.add_comm]

theorem execute_raises (decodes : decode raw = .ok instr) (coded : instr.opCode = op.opCode)
    (v : Operands) (m : Memory) (traps : op.Traps) (overflows : Overflows (op.result raw v)) :
    execute instr v m = .error (.exception .overflow 0 m) := by
  unfold execute
  cases op with
  | add =>
    simp only [coded, opCode]
    exact if_pos ((add_overflows_iff v.rs v.rt).mpr overflows)
  | addi =>
    simp only [result, exact, ← decode_immediate decodes coded (.inl rfl)] at overflows
    simp only [coded, opCode]
    exact if_pos ((addi_overflows_iff v.rs instr.extra).mpr overflows)
  | sub =>
    simp only [coded, opCode]
    exact if_pos ((sub_overflows_iff v.rs v.rt).mpr overflows)
  | addu | addiu | subu => exact traps.elim

theorem execute_stores (decodes : decode raw = .ok instr) (coded : instr.opCode = op.opCode)
    (v : Operands) (m : Memory) (fits : ¬(op.Traps ∧ Overflows (op.result raw v))) :
    execute instr v m = .ok ((Effect.plain v m).assign (op.target instr)
      (BitVec.ofInt 32 (op.result raw v))) := by
  have sum (x y : Word) : BitVec.ofInt 32 (x.toInt + y.toInt) = x + y := by
    rw [BitVec.ofInt_add, BitVec.ofInt_toInt, BitVec.ofInt_toInt]
  have difference (x y : Word) : BitVec.ofInt 32 (x.toInt - y.toInt) = x - y := by
    apply BitVec.eq_of_toInt_eq
    rw [BitVec.toInt_ofInt, BitVec.toInt_sub]
  unfold execute
  cases op with
  | add =>
    simp only [coded, opCode, target, result, exact, sum]
    exact if_neg fun raised => fits ⟨trivial, (add_overflows_iff v.rs v.rt).mp raised⟩
  | addi =>
    simp only [result, exact, ← decode_immediate decodes coded (.inl rfl)] at fits ⊢
    simp only [coded, opCode, target, sum]
    exact if_neg fun raised => fits ⟨trivial, (addi_overflows_iff v.rs instr.extra).mp raised⟩
  | sub =>
    simp only [coded, opCode, target, result, exact, difference]
    exact if_neg fun raised => fits ⟨trivial, (sub_overflows_iff v.rs v.rt).mp raised⟩
  | addu => simp only [coded, opCode, target, result, exact, sum]
  | addiu =>
    simp only [result, exact, ← decode_immediate decodes coded (.inr rfl)]
    simp only [coded, opCode, target, sum]
  | subu => simp only [coded, opCode, target, result, exact, difference]

theorem target_lt (op : SumOp) (decoded : instr.Decoded) : op.target instr < 32 := by
  cases op with
  | add | sub | addu | subu => exact decoded.rd
  | addi | addiu => exact decoded.rt

end SumOp

/-- After an instruction of `s`, its target holds `value`; but r0 is zero, and the load that
was still pending wins. -/
def State.Holds (s s' : State) (target : Nat) (value : Word) : Prop :=
  s'.registers.get target = if target = 0 then 0
    else if target = (s.registers LoadReg).toNat then s.registers LoadValueReg
    else value

theorem State.holds_committed {s : State} {e : Effect} {target : Nat} {value : Word}
    (general : target < 32) (memory : Memory) :
    s.Holds ⟨s.registers.committed (e.assign target value), memory⟩ target value := by
  have own : Registers.get (s.registers.written (some (target, value))) target = value := by
    rw [Registers.get_eq (by omega)]
    exact if_pos rfl
  unfold Holds
  rw [Registers.committed_get general]
  simp only [Effect.assign, own]

theorem State.holds_raised {s : State} {target : Nat} (general : target < 32) (badVAddr : Word)
    (memory : Memory) :
    s.Holds ⟨Function.update (s.registers.loaded 0 0) BadVAddrReg badVAddr, memory⟩ target
      (s.registers.get target) := by
  unfold Holds
  rw [Registers.get_eq (by omega), Registers.get_eq (by omega)]
  dsimp only
  rw [Function.update_of_ne (general_ne_special general (by decide))]
  unfold Registers.loaded
  by_cases zero : target = 0
  · subst zero
    rfl
  · rw [if_neg (fun same => zero (congrArg Fin.val same)),
      if_neg (general_ne_special general (by decide)),
      if_neg (general_ne_special general (by decide)), if_neg zero]

/-- What an addition or subtraction does, by its exact result. -/
structure SumOp.Done (op : SumOp) (raw : Word) (instr : Instruction) (s : State) : Prop where
  traps_iff : (∃ s', s.oneInstruction = .ok (.exception .overflow s')) ↔
    op.Traps ∧ Overflows (op.result raw (s.values instr))
  /-- The exception leaves the target as it was. -/
  unchanged : ∀ s', s.oneInstruction = .ok (.exception .overflow s') →
    s.Holds s' (op.target instr) (s.registers.get (op.target instr))
  /-- The result modulo 2 ^ 32. -/
  stores : ¬(op.Traps ∧ Overflows (op.result raw (s.values instr))) →
    ∃ s', s.oneInstruction = .ok (.next s') ∧
      s.Holds s' (op.target instr) (BitVec.ofInt 32 (op.result raw (s.values instr)))
  exact : ¬Overflows (op.result raw (s.values instr)) →
    (BitVec.ofInt 32 (op.result raw (s.values instr))).toInt = op.result raw (s.values instr)

theorem ofInt_exact {x : Int} (fits : ¬Overflows x) : (BitVec.ofInt 32 x).toInt = x := by
  unfold Overflows at fits
  rw [BitVec.toInt_ofInt]
  exact int32_of_range (by omega) (by omega)

/-- Every addition and subtraction at the program counter, in any state. -/
theorem sums_exact (s : State) (slot : (s.registers LoadReg).toNat ≤ 31) (raw : Word)
    (memory : Memory) (fetched : s.memory.readMem (s.registers PCReg) 4 = .ok (raw, memory))
    (instr : Instruction) (decodes : decode raw = .ok instr) (op : SumOp)
    (coded : instr.opCode = op.opCode) : op.Done raw instr s := by
  have slot : s.registers.SlotInRange := Nat.lt_succ_of_le slot
  have fetch : s.fetch = .ok (instr, memory) := by
    unfold State.fetch
    rw [fetched, Exec.ok_bind]
    simp only [decodes, guarded, Exec.ok_bind]
  have general := op.target_lt (State.fetch_decoded fetch)
  by_cases raises : op.Traps ∧ Overflows (op.result raw (s.values instr))
  · have executed := SumOp.execute_raises decodes coded _ memory raises.1 raises.2
    have raised := State.oneInstruction_raises slot fetch executed
    refine ⟨iff_of_true ⟨_, raised⟩ raises, ?_, fun fits => absurd raises fits, ofInt_exact⟩
    intro s' same
    rw [raised] at same
    cases same
    exact State.holds_raised general 0 memory
  · have executed := SumOp.execute_stores decodes coded _ memory raises
    have done := State.oneInstruction_done slot fetch executed
    have never : ∀ s', s.oneInstruction ≠ .ok (.exception .overflow s') := by
      intro s' raised
      rw [done] at raised
      cases raised
    refine ⟨iff_of_false (not_exists.mpr never) raises,
      fun s' raised => absurd raised (never s'), ?_, ofInt_exact⟩
    intro fits
    exact ⟨_, done, State.holds_committed general _⟩

/-- `ADDI r2, r1, -1` on the smallest number. -/
def decrementing : State where
  registers := fun i => if i.val = 1 then SIGN_BIT else initRegisters 1 i
  memory := programMemory [0x2022ffff]

theorem sums_exact_decrement :
    (∃ s', decrementing.oneInstruction = .ok (.exception .overflow s')) ∧
      SumOp.addi.Done 0x2022ffff ⟨.addi, 1, 2, 31, 0xffffffff⟩ decrementing := by
  have done := sums_exact decrementing (by decide) 0x2022ffff _ rfl
    ⟨.addi, 1, 2, 31, 0xffffffff⟩ rfl .addi rfl
  exact ⟨done.traps_iff.mpr ⟨trivial, .inl (by decide)⟩, done⟩

end Sums

end NachOS.Mips
