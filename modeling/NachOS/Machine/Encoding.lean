import NachOS.Machine.Arithmetic

/-!
# Instruction words (machine/mipssim.cc:721-766, machine/mipssim.h:117-158)

`Decode` takes a word apart along three formats, with two tables for the operations and a
chain of tests for the branches on a sign. Below is the other direction, which the simulator
does not have: the word of an instruction. On the operations that the simulator carries out
each of them is the inverse of the other, so no bit of a word is lost and no two words are
the same instruction.
-/
namespace NachOS.Mips
open NachOS.Lib

/-- The operation is carried out by the simulator. -/
def Op.Legal (op : Op) : Prop := op ∉ [Op.res, .unimp, .rfe, .special, .bcond]

instance (op : Op) : Decidable op.Legal := inferInstanceAs (Decidable (op ∉ _))

/-- Where the operation stands in the word. -/
inductive Coding where
  | special (funct : Nat)
  | bcond (rt : Nat)
  | plain (opcode : Nat) (format : Format)
  deriving DecidableEq

/-- The values of the `rt` field that ask for a branch on a sign. -/
def bcondCodes : List (Op × Nat) := [(.bltz, 0), (.bgez, 1), (.bltzal, 16), (.bgezal, 17)]

def Op.coding (op : Op) : Coding :=
  if op ∈ specialTable then .special (specialTable.idxOf op)
  else
    match bcondCodes.lookup op with
    | some rt => .bcond rt
    | none =>
      let opcode := (opTable.map Prod.fst).idxOf op
      .plain opcode ((opTable.lookup op).getD .ifmt)

/-- The four parts of a word: the operation, two registers, and the rest. -/
def joined (opcode rs rt rest : Nat) : Word :=
  BitVec.ofNat 32 (opcode * 2 ^ 26 + rs * 2 ^ 21 + rt * 2 ^ 16 + rest)

namespace Instruction

def encode (instr : Instruction) : Word :=
  match instr.opCode.coding with
  | .special funct =>
    joined 0 instr.rs instr.rt (instr.rd * 2 ^ 11 + instr.extra.toNat * 2 ^ 6 + funct)
  | .bcond rt => joined 1 instr.rs rt (instr.extra.toNat % 2 ^ 16)
  | .plain opcode .jfmt => joined opcode 0 0 instr.extra.toNat
  | .plain opcode _ => joined opcode instr.rs instr.rt (instr.extra.toNat % 2 ^ 16)

/-- The third field is an extended immediate, and the field for `rd` is its top. -/
structure Immediate (instr : Instruction) : Prop where
  extended : instr.extra = (instr.extra.setWidth 16).signExtend 32
  rd : instr.rd = instr.extra.toNat % 2 ^ 16 / 2 ^ 11

/-- The third field is a target, and the fields for the registers are parts of it. -/
structure Target (instr : Instruction) : Prop where
  bound : instr.extra.toNat < 2 ^ 26
  rs : instr.rs = instr.extra.toNat / 2 ^ 21
  rt : instr.rt = instr.extra.toNat / 2 ^ 16 % 32
  rd : instr.rd = instr.extra.toNat / 2 ^ 11 % 32

def Fields (instr : Instruction) : Coding → Prop
  | .special _ => instr.extra.toNat < 32
  | .bcond rt => instr.rt = rt ∧ instr.Immediate
  | .plain _ .jfmt => instr.Target
  | .plain _ _ => instr.Immediate

/-- The fields say the same, where they are read from the same bits. -/
structure WellFormed (instr : Instruction) : Prop where
  rs : instr.rs < 32
  rt : instr.rt < 32
  rd : instr.rd < 32
  fields : instr.Fields instr.opCode.coding

end Instruction

section Fields

variable {opcode rs rt rest : Nat}

/-- A field of `n` bits of an instruction word. -/
theorem field_toNat (value : Word) (k n : Nat) (mask : Word) (ones : mask.toNat = 2 ^ n - 1) :
    (value >>> k &&& mask).toNat = value.toNat / 2 ^ k % 2 ^ n := by
  rw [BitVec.toNat_and, BitVec.toNat_ushiftRight, ones, Nat.and_two_pow_sub_one_eq_mod,
    Nat.shiftRight_eq_div_pow]

theorem joined_toNat (hop : opcode < 64) (hrs : rs < 32) (hrt : rt < 32) (hrest : rest < 2 ^ 16) :
    (joined opcode rs rt rest).toNat = opcode * 2 ^ 26 + rs * 2 ^ 21 + rt * 2 ^ 16 + rest := by
  unfold joined
  rw [BitVec.toNat_ofNat]
  omega

end Fields

section Tables

theorem specialTable_coding : ∀ f < 64, ∀ op ∈ specialTable[f]?, op.Legal →
    op.coding = .special f := by
  decide

theorem opTable_coding : ∀ o < 64, ∀ info ∈ opTable[o]?, info.1.Legal →
    info.1.coding = .plain o info.2 ∧ info.2 ≠ .rfmt := by
  decide

/-- Only the first two rows ask for further decoding. -/
theorem opTable_further : ∀ o < 64, ∀ info ∈ opTable[o]?,
    (info.1 = .special → o = 0 ∧ info.2 = .rfmt) ∧ (info.1 = .bcond → o = 1 ∧ info.2 = .ifmt) := by
  decide

theorem bcondCodes_coding : ∀ p ∈ bcondCodes, p.1.coding = .bcond p.2 ∧ p.2 < 32 := by
  decide

/-- The tables have the operation where its coding says. -/
def Op.Listed (op : Op) : Coding → Prop
  | .special f => f < 64 ∧ specialTable[f]? = some op
  | .bcond rt => (op, rt) ∈ bcondCodes
  | .plain o format => o < 64 ∧ opTable[o]? = some (op, format) ∧ format ≠ .rfmt

instance (op : Op) : ∀ c : Coding, Decidable (op.Listed c)
  | .special f => inferInstanceAs (Decidable (f < 64 ∧ specialTable[f]? = some op))
  | .bcond rt => inferInstanceAs (Decidable ((op, rt) ∈ bcondCodes))
  | .plain o format =>
    inferInstanceAs (Decidable (o < 64 ∧ opTable[o]? = some (op, format) ∧ format ≠ .rfmt))

theorem Op.Legal.listed {op : Op} (legal : op.Legal) : op.Listed op.coding := by
  revert legal
  cases op <;> decide

theorem bcond_toNat (value : Word) :
    (value &&& 0x1f0000).toNat = value.toNat / 2 ^ 16 % 32 * 2 ^ 16 := by
  have high : (value.toNat &&& 0x1f0000) / 2 ^ 16 = value.toNat / 2 ^ 16 % 32 := by
    rw [Nat.and_div_two_pow]
    exact Nat.and_two_pow_sub_one_eq_mod (value.toNat / 2 ^ 16) 5
  have low : (value.toNat &&& 0x1f0000) % 2 ^ 16 = 0 := by
    rw [Nat.and_mod_two_pow]
    exact Nat.and_zero _
  rw [BitVec.toNat_and]
  change value.toNat &&& 0x1f0000 = _
  omega

/-- The tests of `Decode` for a branch on a sign. -/
theorem bcondOp_iff {op : Op} (legal : op.Legal) (value : Word) :
    bcondOp value = op ↔ (op, value.toNat / 2 ^ 16 % 32) ∈ bcondCodes := by
  have masked := bcond_toNat value
  have is (c : Nat) (small : c < 32) :
      value &&& 0x1f0000 = BitVec.ofNat 32 (c * 2 ^ 16) ↔ value.toNat / 2 ^ 16 % 32 = c := by
    have word : c * 2 ^ 16 < 2 ^ 32 := by omega
    rw [← BitVec.toNat_inj, masked, BitVec.toNat_ofNat, Nat.mod_eq_of_lt word]
    omega
  have unimp : op ≠ .unimp := by
    rintro rfl
    exact legal (by decide)
  have none : value &&& 0x1f0000 = 0 ↔ _ := is 0 (by omega)
  have one : value &&& 0x1f0000 = 0x10000 ↔ _ := is 1 (by omega)
  have sixteen : value &&& 0x1f0000 = 0x100000 ↔ _ := is 16 (by omega)
  have seventeen : value &&& 0x1f0000 = 0x110000 ↔ _ := is 17 (by omega)
  simp only [bcondOp, none, one, sixteen, seventeen]
  generalize value.toNat / 2 ^ 16 % 32 = rt
  simp only [bcondCodes, List.mem_cons, List.not_mem_nil, or_false, Prod.mk.injEq, eq_comm]
  split_ifs <;> simp [*]

end Tables

section Extra

variable {value extra : Word}

theorem extraField_rfmt_iff :
    extra = extraField value .rfmt ↔ extra.toNat = value.toNat / 2 ^ 6 % 32 := by
  rw [← BitVec.toNat_inj]
  have masked : (value >>> 6 &&& 0x1f).toNat = value.toNat / 2 ^ 6 % 32 :=
    field_toNat value 6 5 _ rfl
  simp only [extraField, masked]

theorem extraField_jfmt_iff :
    extra = extraField value .jfmt ↔ extra.toNat = value.toNat % 2 ^ 26 := by
  rw [← BitVec.toNat_inj]
  have masked := field_toNat value 0 26 0x3ffffff rfl
  rw [BitVec.ushiftRight_zero, Nat.pow_zero, Nat.div_one] at masked
  change _ = (value &&& 0x3ffffff).toNat ↔ _
  rw [masked]

theorem extraField_ifmt_iff : extra = extraField value .ifmt ↔
    extra = (extra.setWidth 16).signExtend 32 ∧ extra.toNat % 2 ^ 16 = value.toNat % 2 ^ 16 := by
  rw [extraField_ifmt]
  have same : extra.toNat % 2 ^ 16 = value.toNat % 2 ^ 16 ↔
      extra.setWidth 16 = value.setWidth 16 := by
    rw [← BitVec.toNat_inj, BitVec.toNat_setWidth, BitVec.toNat_setWidth]
  rw [same]
  constructor
  · intro widened
    have low : extra.setWidth 16 = value.setWidth 16 := by
      rw [widened]
      apply BitVec.eq_of_toNat_eq
      rw [BitVec.toNat_setWidth, BitVec.toNat_signExtend, BitVec.toNat_setWidth]
      have := (value.setWidth 16).isLt
      split <;> omega
    exact ⟨low ▸ widened, low⟩
  · rintro ⟨widened, low⟩
    rw [widened, low]

end Extra

/-- What `Decode` reads, as numbers. -/
theorem decode_iff {value : Word} {instr : Instruction} :
    decode value = .ok instr ↔
      instr.rs = value.toNat / 2 ^ 21 % 32 ∧ instr.rt = value.toNat / 2 ^ 16 % 32 ∧
      instr.rd = value.toNat / 2 ^ 11 % 32 ∧
      ∃ info ∈ opTable[value.toNat / 2 ^ 26]?, instr.extra = extraField value info.2 ∧
        instr.opCode =
          if info.1 = .special then (specialTable[value.toNat % 64]?).getD .res
          else if info.1 = .bcond then bcondOp value
          else info.1 := by
  have rs : (value >>> 21 &&& 0x1f).toNat = _ := field_toNat value 21 5 _ rfl
  have rt : (value >>> 16 &&& 0x1f).toNat = _ := field_toNat value 16 5 _ rfl
  have rd : (value >>> 11 &&& 0x1f).toNat = _ := field_toNat value 11 5 _ rfl
  have opcode : (value >>> 26 &&& 0x3f).toNat = value.toNat / 2 ^ 26 := by
    rw [show (value >>> 26 &&& 0x3f).toNat = _ from field_toNat value 26 6 _ rfl]
    omega
  have funct : (value &&& 0x3f).toNat = value.toNat % 64 := by
    have masked := field_toNat value 0 6 0x3f rfl
    rwa [BitVec.ushiftRight_zero, Nat.pow_zero, Nat.div_one] at masked
  have listed : value.toNat / 2 ^ 26 < opTable.length := by
    have : opTable.length = 64 := rfl
    omega
  have named : value.toNat % 64 < specialTable.length := by
    have : specialTable.length = 64 := rfl
    omega
  unfold decode
  simp only [rs, rt, rd, opcode, funct]
  rw [List.getElem?_eq_getElem listed, List.getElem?_eq_getElem named]
  generalize opTable[value.toNat / 2 ^ 26] = info
  obtain ⟨opCode, format⟩ := info
  obtain ⟨opCode', rs', rt', rd', extra'⟩ := instr
  simp only [Option.mem_some_iff, exists_eq_left', Option.getD_some]
  split_ifs <;> simp only [Except.ok.injEq, Instruction.mk.injEq] <;> tauto

namespace Instruction

variable {value : Word} {instr : Instruction}

theorem encode_of_decode (legal : instr.opCode.Legal) (decodes : decode value = .ok instr) :
    instr.WellFormed ∧ instr.encode = value := by
  obtain ⟨rs, rt, rd, info, listed, extra, opCode⟩ := decode_iff.mp decodes
  have range := value.isLt
  have low : value.toNat % 64 < specialTable.length := Nat.mod_lt _ (by decide)
  by_cases special : info.1 = .special
  · obtain ⟨row, format⟩ := (opTable_further _ (by omega) info listed).1 special
    rw [if_pos special, List.getElem?_eq_getElem low, Option.getD_some] at opCode
    have coding : instr.opCode.coding = .special (value.toNat % 64) := by
      apply specialTable_coding _ low _ _ legal
      rw [opCode]
      exact List.getElem?_eq_getElem low
    rw [format, extraField_rfmt_iff] at extra
    constructor
    · refine ⟨by omega, by omega, by omega, ?_⟩
      rw [coding]
      change instr.extra.toNat < 32
      omega
    · apply BitVec.eq_of_toNat_eq
      simp only [encode, coding]
      rw [joined_toNat (by omega) (by omega) (by omega) (by omega)]
      omega
  · rw [if_neg special] at opCode
    by_cases bcond : info.1 = .bcond
    · obtain ⟨row, format⟩ := (opTable_further _ (by omega) info listed).2 bcond
      rw [if_pos bcond] at opCode
      have coded := (bcondOp_iff legal value).mp opCode.symm
      obtain ⟨coding, -⟩ := bcondCodes_coding _ coded
      simp only at coding
      rw [format, extraField_ifmt_iff] at extra
      obtain ⟨widened, immediate⟩ := extra
      constructor
      · refine ⟨by omega, by omega, by omega, ?_⟩
        rw [coding]
        exact ⟨rt, widened, by omega⟩
      · apply BitVec.eq_of_toNat_eq
        simp only [encode, coding]
        rw [joined_toNat (by omega) (by omega) (by omega) (by omega)]
        omega
    · rw [if_neg bcond] at opCode
      rw [opCode] at legal
      obtain ⟨coding, notShift⟩ := opTable_coding _ (by omega) info listed legal
      rw [← opCode] at coding
      constructor
      · refine ⟨by omega, by omega, by omega, ?_⟩
        rw [coding]
        cases format : info.2 with
        | rfmt => exact absurd format notShift
        | ifmt =>
          rw [format, extraField_ifmt_iff] at extra
          exact ⟨extra.1, by omega⟩
        | jfmt =>
          rw [format, extraField_jfmt_iff] at extra
          exact ⟨by omega, by omega, by omega, by omega⟩
      · apply BitVec.eq_of_toNat_eq
        simp only [encode, coding]
        cases format : info.2 with
        | rfmt => exact absurd format notShift
        | ifmt =>
          rw [format, extraField_ifmt_iff] at extra
          obtain ⟨-, immediate⟩ := extra
          simp only
          rw [joined_toNat (by omega) (by omega) (by omega) (by omega)]
          omega
        | jfmt =>
          rw [format, extraField_jfmt_iff] at extra
          simp only [joined]
          rw [BitVec.toNat_ofNat]
          omega

theorem decode_of_encode (legal : instr.opCode.Legal) (wellFormed : instr.WellFormed)
    (encodes : instr.encode = value) : decode value = .ok instr := by
  obtain ⟨rs, rt, rd, fields⟩ := wellFormed
  have listed := legal.listed
  have word := congrArg BitVec.toNat encodes
  unfold encode at word
  rw [decode_iff]
  cases coding : instr.opCode.coding with
  | special funct =>
    rw [coding] at fields listed word
    obtain ⟨small, named⟩ := listed
    change instr.extra.toNat < 32 at fields
    simp only at word
    rw [joined_toNat (by omega) rs rt (by omega)] at word
    have row : value.toNat / 2 ^ 26 = 0 := by omega
    have column : value.toNat % 64 = funct := by omega
    refine ⟨by omega, by omega, by omega, (.special, .rfmt), ?_, ?_, ?_⟩
    · rw [row]
      rfl
    · rw [extraField_rfmt_iff]
      omega
    · rw [if_pos rfl, column, named]
      rfl
  | bcond code =>
    rw [coding] at fields listed word
    obtain ⟨same, widened, top⟩ := fields
    simp only at word
    have small : code < 32 := (bcondCodes_coding _ listed).2
    rw [joined_toNat (by omega) rs small (by omega)] at word
    have row : value.toNat / 2 ^ 26 = 1 := by omega
    have tested : value.toNat / 2 ^ 16 % 32 = code := by omega
    refine ⟨by omega, by omega, by omega, (.bcond, .ifmt), ?_, ?_, ?_⟩
    · rw [row]
      rfl
    · rw [extraField_ifmt_iff]
      exact ⟨widened, by omega⟩
    · rw [if_neg (by decide), if_pos rfl]
      rw [← tested] at listed
      exact ((bcondOp_iff legal value).mpr listed).symm
  | plain opcode format =>
    rw [coding] at fields listed word
    obtain ⟨small, row, notShift⟩ := listed
    have plain : instr.opCode ≠ .special ∧ instr.opCode ≠ .bcond := by
      constructor
      · intro special
        rw [special] at legal
        exact legal (by decide)
      · intro bcond
        rw [bcond] at legal
        exact legal (by decide)
    cases format with
    | rfmt => exact absurd rfl notShift
    | ifmt =>
      obtain ⟨widened, top⟩ := fields
      simp only at word
      rw [joined_toNat small rs rt (by omega)] at word
      have first : value.toNat / 2 ^ 26 = opcode := by omega
      refine ⟨by omega, by omega, by omega, (instr.opCode, .ifmt), ?_, ?_, ?_⟩
      · rw [first]
        exact row
      · rw [extraField_ifmt_iff]
        exact ⟨widened, by omega⟩
      · rw [if_neg plain.1, if_neg plain.2]
    | jfmt =>
      obtain ⟨bound, topRs, topRt, topRd⟩ := fields
      simp only [joined, BitVec.toNat_ofNat] at word
      have first : value.toNat / 2 ^ 26 = opcode := by omega
      refine ⟨by omega, by omega, by omega, (instr.opCode, .jfmt), ?_, ?_, ?_⟩
      · rw [first]
        exact row
      · rw [extraField_jfmt_iff]
        omega
      · rw [if_neg plain.1, if_neg plain.2]

end Instruction

/-- The word of an instruction is the one word that `Decode` reads as this instruction. -/
theorem decode_iff_encode (value : Word) (instr : Instruction) (legal : instr.opCode.Legal) :
    decode value = .ok instr ↔ instr.WellFormed ∧ instr.encode = value :=
  ⟨Instruction.encode_of_decode legal, fun h => Instruction.decode_of_encode legal h.1 h.2⟩

/-- `bltzal $3` to the delay slot itself. -/
theorem decode_iff_encode_bltzal :
    Instruction.WellFormed ⟨.bltzal, 3, 16, 31, 0xffffffff⟩ ∧
      Instruction.encode ⟨.bltzal, 3, 16, 31, 0xffffffff⟩ = 0x0470ffff :=
  (decode_iff_encode 0x0470ffff ⟨.bltzal, 3, 16, 31, 0xffffffff⟩ (by decide)).mp (by decide)

end NachOS.Mips
