import NachOS.Lib.ByteOrder

/-!
# A byte for every address

Memory as a program sees it: one byte for each address of `w` bits, addresses wrapping
around at the end. Numbers of several bytes are stored with the lowest byte first.
-/
namespace NachOS.Lib

/-- The bytes of four that are put together. -/
theorem byte_append (b : Nat → Byte) {k : Nat} (hk : k < 4) :
    (b 3 ++ b 2 ++ b 1 ++ b 0).extractLsb' (8 * k) 8 = b k := by
  apply BitVec.eq_of_getLsbD_eq
  intro i hi
  simp only [BitVec.getLsbD_extractLsb', BitVec.getLsbD_append, hi, decide_true, Bool.true_and]
  interval_cases k
  · rw [if_pos (by omega)]
    congr 1
    omega
  · rw [if_neg (by omega), if_pos (by omega)]
    congr 1
    omega
  · rw [if_neg (by omega), if_neg (by omega), if_pos (by omega)]
    congr 1
    omega
  · rw [if_neg (by omega), if_neg (by omega), if_neg (by omega)]
    congr 1
    omega

/-- Byte `k` of the word at offset `a`. -/
theorem word_byte (b : Buf) (a : Nat) {k : Nat} (hk : k < 4) :
    (word b a).extractLsb' (8 * k) 8 = b (a + k) :=
  byte_append (fun k => b (a + k)) hk

abbrev Cells (w : Nat) := BitVec w → Byte

namespace Cells

variable {w : Nat} {c : Cells w} {a i : BitVec w} {n : Nat} {x : BitVec 32}

/-- The low `n` bytes of a word, stored from `a` on. -/
def write (c : Cells w) (a : BitVec w) (n : Nat) (x : BitVec 32) : Cells w := fun i =>
  if (i - a).toNat < n then x.extractLsb' (8 * (i - a).toNat) 8 else c i

/-- The number in the two bytes from `a` on. -/
def short (c : Cells w) (a : BitVec w) : BitVec 16 := c (a + BitVec.ofNat w 1) ++ c a

/-- The number in the four bytes from `a` on. -/
def word (c : Cells w) (a : BitVec w) : BitVec 32 :=
  c (a + BitVec.ofNat w 3) ++ c (a + BitVec.ofNat w 2) ++ c (a + BitVec.ofNat w 1) ++ c a

theorem write_inside (inside : (i - a).toNat < n) :
    c.write a n x i = x.extractLsb' (8 * (i - a).toNat) 8 :=
  if_pos inside

theorem write_outside (outside : n ≤ (i - a).toNat) : c.write a n x i = c i :=
  if_neg (Nat.not_lt.mpr outside)

theorem word_byte (c : Cells w) (a : BitVec w) {k : Nat} (hk : k < 4) :
    (c.word a).extractLsb' (8 * k) 8 = c (a + BitVec.ofNat w k) := by
  have bytes := byte_append (fun k => c (a + BitVec.ofNat w k)) hk
  have zero : a + BitVec.ofNat w 0 = a := BitVec.add_zero a
  rw [zero] at bytes
  exact bytes

end Cells

section Bytes

variable {x y : BitVec 32} {j k : Nat}

theorem eq_of_bytes (same : ∀ k < 4, x.extractLsb' (8 * k) 8 = y.extractLsb' (8 * k) 8) :
    x = y := by
  apply BitVec.eq_of_getLsbD_eq
  intro i hi
  have byte := congrArg (fun b => b.getLsbD (i % 8)) (same (i / 8) (by omega))
  simp only [BitVec.getLsbD_extractLsb', Nat.mod_lt i (show 8 > 0 by decide), decide_true,
    Bool.true_and, Nat.div_add_mod] at byte
  exact byte

/-- The mask of the low `j` bytes. -/
def lowBytes (j : Nat) : BitVec 32 := BitVec.ofNat 32 (2 ^ (8 * j) - 1)

theorem lowBytes_getLsbD {i : Nat} (hi : i < 32) : (lowBytes j).getLsbD i = decide (i < 8 * j) := by
  unfold lowBytes
  rw [BitVec.getLsbD_ofNat, Nat.testBit_two_pow_sub_one]
  simp [hi]

/-- The low `j` bytes of one word below the bytes of another. -/
theorem byte_low_merge (hk : k < 4) :
    (x &&& lowBytes j ||| y <<< (8 * j)).extractLsb' (8 * k) 8 =
      if k < j then x.extractLsb' (8 * k) 8 else y.extractLsb' (8 * (k - j)) 8 := by
  apply BitVec.eq_of_getLsbD_eq
  intro i hi
  have inside : 8 * k + i < 32 := by omega
  simp only [BitVec.getLsbD_extractLsb', BitVec.getLsbD_or, BitVec.getLsbD_and,
    BitVec.getLsbD_shiftLeft, lowBytes_getLsbD inside, hi, inside, decide_true, Bool.true_and]
  split
  next below =>
    have low : 8 * k + i < 8 * j := by omega
    simp only [BitVec.getLsbD_extractLsb', hi, low, decide_true, Bool.and_true, Bool.not_true,
      Bool.false_and, Bool.or_false, Bool.true_and]
  next above =>
    have high : ¬(8 * k + i < 8 * j) := by omega
    have moved : 8 * k + i - 8 * j = 8 * (k - j) + i := by omega
    simp only [BitVec.getLsbD_extractLsb', hi, high, moved, decide_true, decide_false,
      Bool.and_false, Bool.not_false, Bool.false_or, Bool.true_and]

/-- The high `j` bytes of one word as the low bytes of another. -/
theorem byte_high_merge (hk : k < 4) (hj : j ≤ 4) :
    (x &&& ~~~lowBytes j ||| (y.sshiftRight (32 - 8 * j) &&& lowBytes j)).extractLsb' (8 * k) 8 =
      if k < j then y.extractLsb' (8 * (k + 4 - j)) 8 else x.extractLsb' (8 * k) 8 := by
  apply BitVec.eq_of_getLsbD_eq
  intro i hi
  have inside : 8 * k + i < 32 := by omega
  by_cases below : k < j
  · have low : 8 * k + i < 8 * j := by omega
    have kept : 8 * (k + 4 - j) + i < 32 := by omega
    have moved : 32 - 8 * j + (8 * k + i) = 8 * (k + 4 - j) + i := by omega
    rw [if_pos below]
    simp only [BitVec.getLsbD_extractLsb', BitVec.getLsbD_or, BitVec.getLsbD_and,
      BitVec.getLsbD_not, BitVec.getLsbD_sshiftRight, lowBytes_getLsbD inside, hi, low, moved, kept,
      Nat.not_le.mpr inside, decide_true, decide_false, if_true, Bool.not_true, Bool.not_false,
      Bool.and_false, Bool.false_or, Bool.and_true, Bool.true_and]
  · have high : ¬(8 * k + i < 8 * j) := by omega
    rw [if_neg below]
    simp only [BitVec.getLsbD_extractLsb', BitVec.getLsbD_or, BitVec.getLsbD_and,
      BitVec.getLsbD_not, lowBytes_getLsbD inside, hi, inside, high, decide_true, decide_false,
      Bool.not_false, Bool.and_false, Bool.or_false, Bool.and_true, Bool.true_and]

end Bytes

end NachOS.Lib
