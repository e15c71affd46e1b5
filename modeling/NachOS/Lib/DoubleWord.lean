import Mathlib.Data.BitVec
import Mathlib.Tactic.Ring

/-!
# Numbers in two words

A number of `2 * w` bits is kept as a high and a low word `hi ++ lo`. Addition with the
carry recomputed from the sum, the shift by one and the two's complement are carried out
word by word; each is the operation on the whole number.
-/
namespace NachOS.Lib.DoubleWord

variable {w : Nat}

theorem toNat_append_eq (hi lo : BitVec w) :
    (hi ++ lo).toNat = hi.toNat * 2 ^ w + lo.toNat := by
  rw [BitVec.toNat_append, ← Nat.shiftLeft_add_eq_or_of_lt lo.isLt, Nat.shiftLeft_eq]

/-- What the high word loses is a multiple of the whole range. -/
theorem toNat_ofNat_append (x : Nat) (lo : BitVec w) :
    (BitVec.ofNat w x ++ lo).toNat = (x * 2 ^ w + lo.toNat) % 2 ^ (w + w) := by
  have low : (x * 2 ^ w + lo.toNat) % 2 ^ w = lo.toNat := by
    rw [Nat.mul_add_mod_self_right]
    exact Nat.mod_eq_of_lt lo.isLt
  have high : (x * 2 ^ w + lo.toNat) / 2 ^ w = x := by
    rw [Nat.mul_comm, Nat.mul_add_div (Nat.two_pow_pos w), Nat.div_eq_of_lt lo.isLt, Nat.add_zero]
  rw [toNat_append_eq, BitVec.toNat_ofNat, Nat.pow_add, Nat.mod_mul, low, high]
  ring

/-- The sum of the low words, with the carry that is seen from the sum being too small. -/
theorem toNat_add_carry (lo bLo : BitVec w) :
    (lo + bLo).toNat + 2 ^ w * (if lo + bLo < bLo then 1 else 0) = lo.toNat + bLo.toNat := by
  have hlo := lo.isLt
  have hb := bLo.isLt
  simp only [BitVec.lt_def, BitVec.toNat_add]
  rcases Nat.lt_or_ge (lo.toNat + bLo.toNat) (2 ^ w) with h | h
  · rw [Nat.mod_eq_of_lt h, if_neg (by omega)]
    omega
  · rw [Nat.mod_eq_sub_mod h, Nat.mod_eq_of_lt (by omega), if_pos (by omega)]
    omega

theorem append_add_append (hi lo bHi bLo : BitVec w) :
    ((if lo + bLo < bLo then hi + 1 else hi) + bHi) ++ (lo + bLo) = (hi ++ lo) + (bHi ++ bLo) := by
  have carry := toNat_add_carry lo bLo
  have high : (if lo + bLo < bLo then hi + 1 else hi) + bHi =
      BitVec.ofNat w (hi.toNat + (if lo + bLo < bLo then 1 else 0) + bHi.toNat) := by
    rw [BitVec.ofNat_add, BitVec.ofNat_add]
    split <;> simp
  apply BitVec.eq_of_toNat_eq
  rw [high, toNat_ofNat_append, BitVec.toNat_add (hi ++ lo), toNat_append_eq, toNat_append_eq]
  congr 1
  calc (hi.toNat + (if lo + bLo < bLo then 1 else 0) + bHi.toNat) * 2 ^ w + (lo + bLo).toNat
      = (hi.toNat + bHi.toNat) * 2 ^ w
          + ((lo + bLo).toNat + 2 ^ w * (if lo + bLo < bLo then 1 else 0)) := by ring
    _ = hi.toNat * 2 ^ w + lo.toNat + (bHi.toNat * 2 ^ w + bLo.toNat) := by rw [carry]; ring

/-- The top bit of the low word moves to the high one. -/
theorem append_shiftLeft_one (bHi bLo : BitVec w) :
    (if bLo.msb then bHi <<< 1 ||| 1 else bHi <<< 1) ++ (bLo <<< 1) = (bHi ++ bLo) <<< 1 := by
  apply BitVec.eq_of_getLsbD_eq
  intro i hi
  rw [BitVec.msb_eq_getLsbD_last]
  have one (j : Nat) : (1 : BitVec w).getLsbD j = (decide (0 < w) && decide (j = 0)) :=
    BitVec.getLsbD_one
  split
  · simp only [BitVec.getLsbD_append, BitVec.getLsbD_shiftLeft, BitVec.getLsbD_or, one]
    grind
  · grind

theorem not_append_not (hi lo : BitVec w) :
    (if ~~~lo + 1 = 0 then ~~~hi + 1 else ~~~hi) ++ (~~~lo + 1) = -(hi ++ lo) := by
  rcases Nat.eq_zero_or_pos w with h | h
  · subst h
    apply BitVec.eq_of_getLsbD_eq
    intro i hi
    omega
  have one : (0 : BitVec w) ++ (1 : BitVec w) = BitVec.ofNat (w + w) 1 := by
    apply BitVec.eq_of_toNat_eq
    have wide : (1 : Nat) < 2 ^ (w + w) := Nat.one_lt_two_pow (by omega)
    have narrow : (1 : Nat) < 2 ^ w := Nat.one_lt_two_pow (by omega)
    rw [toNat_append_eq, BitVec.toNat_ofNat, Nat.mod_eq_of_lt wide]
    simp [Nat.mod_eq_of_lt narrow]
  have carry : (~~~lo + 1 < 1) = (~~~lo + 1 = 0) := propext (BitVec.lt_one_iff h)
  rw [BitVec.neg_eq_not_add, BitVec.not_append, ← one, ← append_add_append, add_zero]
  simp only [carry]

end NachOS.Lib.DoubleWord
