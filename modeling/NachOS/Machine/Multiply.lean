import NachOS.Lib.DoubleWord
import NachOS.Machine.MipsSim

/-!
# The multiplication of the simulated machine (machine/mipssim.cc:771-828)

`Mult` adds up shifted copies of the multiplicand, one for each bit of the multiplier,
in two words of 32 bits. The multiplier is shifted as a signed number, so that copies of
its sign move in from the left; after `k` shifts its lower `32 - k` bits are still those
that the multiplier had, and the loop looks at no other.
-/
namespace NachOS.Mips
open NachOS.Lib

theorem and_one_ne_zero_iff (a : Word) : a &&& 1 ≠ 0 ↔ a.toNat % 2 = 1 := by
  have value : (a &&& 1).toNat = a.toNat % 2 := by
    rw [BitVec.toNat_and]
    exact Nat.and_one_is_mod a.toNat
  have zero : (0 : Word).toNat = 0 := rfl
  rw [Ne, ← BitVec.toNat_inj, value, zero]
  omega

/-- The test for the early end of the loop: no bit is left but the lowest. -/
theorem toNat_div_two_of_and (a : Word) (h : a &&& 0xfffffffe = 0) : a.toNat / 2 = 0 := by
  have lowest : a &&& 1 = a := by
    calc a &&& 1 = (a &&& 0xfffffffe) ||| (a &&& 1) := by rw [h]; exact BitVec.zero_or.symm
      _ = a &&& (0xfffffffe ||| 1) := by rw [BitVec.and_or_distrib_left]
      _ = a := BitVec.and_allOnes
  have value : a.toNat % 2 = a.toNat := by
    rw [← Nat.and_one_is_mod]
    exact congrArg BitVec.toNat lowest
  omega

theorem and_sign_ne_zero_iff (bLo : Word) : bLo &&& 0x80000000 ≠ 0 ↔ bLo.msb = true := by
  have sign : (0x80000000 : Word) = BitVec.twoPow 32 31 := rfl
  rw [sign, BitVec.and_twoPow, BitVec.msb_eq_getLsbD_last]
  split
  · rename_i h
    exact iff_of_true (by decide) h
  · rename_i h
    exact iff_of_false (fun h => h rfl) h

/-- The signed shift keeps the bits below the sign. -/
theorem sshiftRight_mod (a : Word) {n : Nat} (hn : n < 32) :
    (a.sshiftRight 1).toNat % 2 ^ n = a.toNat / 2 % 2 ^ n := by
  apply Nat.eq_of_testBit_eq
  intro i
  rw [Nat.testBit_mod_two_pow, Nat.testBit_mod_two_pow, Nat.testBit_div_two]
  by_cases hi : i < n
  · rw [BitVec.testBit_toNat, BitVec.testBit_toNat, BitVec.getLsbD_sshiftRight]
    grind
  · simp [hi]

/-- The multiplicand after a pass of the loop. -/
theorem shifted_append (bHi bLo : Word) :
    (if bLo &&& 0x80000000 ≠ 0 then bHi <<< 1 ||| 1 else bHi <<< 1) ++ (bLo <<< 1) =
      ((bHi ++ bLo) + (bHi ++ bLo) : BitVec (32 + 32)) := by
  simp only [and_sign_ne_zero_iff]
  rw [DoubleWord.append_shiftLeft_one, BitVec.shiftLeft_eq_mul_twoPow]
  exact mul_two _

/-- The loop adds the product of the multiplicand and of the lower `n` bits of the
multiplier. -/
theorem multLoop_append (n : Nat) (hn : n ≤ 32) (a bLo bHi lo hi : Word) :
    (multLoop n a bLo bHi lo hi).1 ++ (multLoop n a bLo bHi lo hi).2 =
      (hi ++ lo) + ((a.toNat % 2 ^ n : Nat) : BitVec (32 + 32)) * (bHi ++ bLo) := by
  induction n generalizing a bLo bHi lo hi with
  | zero => simp [multLoop, Nat.mod_one]
  | succ n ih =>
    have bits : a.toNat % 2 ^ (n + 1) =
        a.toNat % 2 + (a.toNat / 2 % 2 ^ n + a.toNat / 2 % 2 ^ n) := by
      rw [Nat.pow_succ', Nat.mod_mul, Nat.two_mul]
    have pass (lo hi : Word) := ih (by omega) (a.sshiftRight 1) (bLo <<< 1)
      (if bLo &&& 0x80000000 ≠ 0 then bHi <<< 1 ||| 1 else bHi <<< 1) lo hi
    rw [shifted_append, sshiftRight_mod a hn] at pass
    rw [bits]
    simp only [multLoop]
    by_cases odd : a &&& 1 ≠ 0
    · have one : a.toNat % 2 = 1 := (and_one_ne_zero_iff a).mp odd
      rw [if_pos odd, if_pos odd, one]
      split
      · rename_i last
        rw [DoubleWord.append_add_append, toNat_div_two_of_and a last.2]
        simp
      · rw [pass, DoubleWord.append_add_append, Nat.cast_add, Nat.cast_add, Nat.cast_one]
        ring
    · have zero : a.toNat % 2 = 0 := by
        have := (and_one_ne_zero_iff a).not.mp odd
        omega
      rw [if_neg odd, if_neg odd, if_neg (fun h => odd h.1), zero, pass, Nat.zero_add,
        Nat.cast_add]
      ring

theorem multLoop_toNat (a b : Word) :
    ((multLoop 32 a b 0 0 0).1 ++ (multLoop 32 a b 0 0 0).2).toNat = a.toNat * b.toNat := by
  have ha := a.isLt
  have small : a.toNat * b.toNat < 2 ^ (32 + 32) := by
    calc a.toNat * b.toNat < 2 ^ 32 * 2 ^ 32 := Nat.mul_lt_mul'' a.isLt b.isLt
      _ = 2 ^ (32 + 32) := by norm_num
  have low : ((0 : Word) ++ b).toNat = b.toNat := by
    rw [DoubleWord.toNat_append_eq]
    simp
  have start : (0 : Word) ++ (0 : Word) = (0 : BitVec (32 + 32)) := rfl
  have cast : ((a.toNat : Nat) : BitVec (32 + 32)).toNat = a.toNat :=
    Nat.mod_eq_of_lt (by omega)
  rw [multLoop_append 32 (Nat.le_refl 32), Nat.mod_eq_of_lt a.isLt, start, zero_add,
    BitVec.toNat_mul, cast, low, Nat.mod_eq_of_lt small]

theorem slt_zero_iff (a : Word) : a.slt 0 = true ↔ a.toInt < 0 :=
  BitVec.slt_iff_toInt_lt

/-- The sign that `Mult` keeps apart, and the magnitudes. -/
theorem product_of_magnitudes (a b : Word) :
    a.toInt * b.toInt = if a.slt 0 != b.slt 0 then
      -((a.toInt.natAbs : Int) * b.toInt.natAbs) else (a.toInt.natAbs : Int) * b.toInt.natAbs := by
  have below (x : Word) (h : x.toInt < 0) : x.slt 0 = true ∧ (x.toInt.natAbs : Int) = -x.toInt :=
    ⟨(slt_zero_iff x).mpr h, Int.ofNat_natAbs_of_nonpos (Int.le_of_lt h)⟩
  have above (x : Word) (h : ¬x.toInt < 0) : x.slt 0 = false ∧ (x.toInt.natAbs : Int) = x.toInt :=
    ⟨Bool.eq_false_iff.mpr ((slt_zero_iff x).not.mpr h), Int.natAbs_of_nonneg (Int.not_lt.mp h)⟩
  by_cases ha : a.toInt < 0 <;> by_cases hb : b.toInt < 0
  · rw [(below a ha).1, (below b hb).1, (below a ha).2, (below b hb).2]
    simp
  · rw [(below a ha).1, (above b hb).1, (below a ha).2, (above b hb).2]
    simp
  · rw [(above a ha).1, (below b hb).1, (above a ha).2, (below b hb).2]
    simp
  · rw [(above a ha).1, (above b hb).1, (above a ha).2, (above b hb).2]
    simp

/-- An operand without its sign, as an unsigned number: `-2 ^ 31` is its own negative. -/
theorem toNat_magnitude (a : Word) : (if a.slt 0 then -a else a).toNat = a.toInt.natAbs := by
  have ha := a.isLt
  have value := BitVec.toInt_eq_toNat_cond a
  split
  · rename_i h
    rw [slt_zero_iff] at h
    rw [BitVec.toNat_neg]
    omega
  · rename_i h
    rw [slt_zero_iff] at h
    omega

/-- The result of `Mult` on operands other than 0, as one number. -/
theorem mult_append {a b : Word} (ha : a ≠ 0) (hb : b ≠ 0) (signedArith : Bool) :
    let a' := if signedArith && a.slt 0 then -a else a
    let b' := if signedArith && b.slt 0 then -b else b
    let product := (multLoop 32 a' b' 0 0 0).1 ++ (multLoop 32 a' b' 0 0 0).2
    (mult a b signedArith).1 ++ (mult a b signedArith).2 =
      if signedArith && (a.slt 0 != b.slt 0) then -product else product := by
  have nonzero : ¬(a = 0 ∨ b = 0) := by
    intro h
    exact h.elim ha hb
  unfold mult
  rw [if_neg nonzero]
  dsimp only
  generalize multLoop 32 _ _ 0 0 0 = product
  obtain ⟨hi, lo⟩ := product
  by_cases negative : signedArith && (a.slt 0 != b.slt 0)
  · rw [if_pos negative, if_pos negative, ← DoubleWord.not_append_not]
    split <;> rfl
  · rw [if_neg negative, if_neg negative]

/-- A product of magnitudes fits in 63 bits, so that its sign can be put back. -/
theorem magnitude_product_le (a b : Word) : a.toInt.natAbs * b.toInt.natAbs ≤ 2 ^ 62 := by
  have bound (x : Word) : x.toInt.natAbs ≤ 2 ^ 31 := by
    have := BitVec.le_toInt x
    have := x.toInt_lt
    omega
  calc a.toInt.natAbs * b.toInt.natAbs ≤ 2 ^ 31 * 2 ^ 31 := Nat.mul_le_mul (bound a) (bound b)
    _ = 2 ^ 62 := by norm_num

theorem mult_signed (a b : Word) :
    ((mult a b true).1 ++ (mult a b true).2).toInt = a.toInt * b.toInt := by
  by_cases ha : a = 0
  · subst ha
    simp [mult]
  by_cases hb : b = 0
  · subst hb
    simp [mult]
  rw [mult_append ha hb true]
  simp only [Bool.true_and]
  have value := multLoop_toNat (if a.slt 0 then -a else a) (if b.slt 0 then -b else b)
  rw [toNat_magnitude, toNat_magnitude] at value
  generalize (multLoop 32 (if a.slt 0 then -a else a) (if b.slt 0 then -b else b) 0 0 0).1 ++
    (multLoop 32 (if a.slt 0 then -a else a) (if b.slt 0 then -b else b) 0 0 0).2 = product
    at value ⊢
  have small := magnitude_product_le a b
  have signed : product.toInt = a.toInt.natAbs * b.toInt.natAbs := by
    rw [BitVec.toInt_eq_toNat_of_lt (by omega), value]
    push_cast
    rfl
  have notMin : product ≠ BitVec.intMin (32 + 32) := by
    intro h
    rw [h, BitVec.toNat_intMin] at value
    omega
  rw [product_of_magnitudes, ← signed]
  split
  · exact BitVec.toInt_neg_of_ne_intMin notMin
  · rfl

/-- The product of the two operands, in all 64 bits. -/
theorem mult_exact (a b : Word) :
    ((mult a b true).1 ++ (mult a b true).2).toInt = a.toInt * b.toInt ∧
      ((mult a b false).1 ++ (mult a b false).2).toNat = a.toNat * b.toNat := by
  constructor
  · exact mult_signed a b
  · by_cases ha : a = 0
    · subst ha
      simp [mult]
    by_cases hb : b = 0
    · subst hb
      simp [mult]
    rw [mult_append ha hb false]
    simp only [Bool.false_and]
    exact multLoop_toNat a b

end NachOS.Mips
