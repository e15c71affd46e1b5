import NachOS.Lib.Memory
import Mathlib.Data.Nat.Digits.Lemmas

/-!
# Decimal numerals

The text of a number and the number that a text denotes, over the digits of Mathlib's
`Nat.digits`. A parser that reads from the left keeps a running total; the total may be
reduced modulo a number of bits after every digit, or once at the end.
-/
namespace NachOS.Lib.Decimal

/-- The character of a digit. -/
def digitChar (d : Nat) : Byte := BitVec.ofNat 8 (48 + d)

/-- The digit that a character stands for. -/
def digit (c : Byte) : Nat := c.toNat - 48

/-- The characters `0` to `9`. -/
def IsDigit (c : Byte) : Prop := 48 ≤ c.toNat ∧ c.toNat ≤ 57

instance (c : Byte) : Decidable (IsDigit c) := inferInstanceAs (Decidable (_ ∧ _))

/-- The number that a row of digits denotes, the most significant one first. -/
def value (text : List Byte) : Nat := Nat.ofDigits 10 (text.reverse.map digit)

/-- The numeral of a number, without leading zeros. -/
def numeral (n : Nat) : List Byte :=
  if n = 0 then [digitChar 0] else ((Nat.digits 10 n).map digitChar).reverse

/-- The total after one more digit on the left. -/
def total (x : Int) (text : List Byte) : Int :=
  text.foldl (fun x c => x * 10 + (c.toInt - 48)) x

variable {c : Byte} {text : List Byte} {d n : Nat}

theorem digit_digitChar (h : d < 10) : digit (digitChar d) = d := by
  simp only [digit, digitChar, BitVec.toNat_ofNat]
  omega

theorem isDigit_digitChar (h : d < 10) : IsDigit (digitChar d) := by
  simp only [IsDigit, digitChar, BitVec.toNat_ofNat]
  omega

theorem toInt_sub_of_isDigit (h : IsDigit c) : c.toInt - 48 = digit c := by
  obtain ⟨low, high⟩ := h
  rw [BitVec.toInt_eq_toNat_of_lt (by omega), digit]
  omega

theorem value_concat (text : List Byte) (c : Byte) :
    value (text ++ [c]) = value text * 10 + digit c := by
  unfold value
  rw [List.reverse_append, List.reverse_singleton, List.singleton_append, List.map_cons,
    Nat.ofDigits_cons, Nat.mul_comm 10, Nat.add_comm]

theorem total_concat (x : Int) (text : List Byte) (c : Byte) :
    total x (text ++ [c]) = total x text * 10 + (c.toInt - 48) := by
  unfold total
  rw [List.foldl_append, List.foldl_cons, List.foldl_nil]

/-- Reading from the left gives the number that the digits denote. -/
theorem total_eq_value (h : ∀ c ∈ text, IsDigit c) : total 0 text = value text := by
  induction text using List.reverseRecOn with
  | nil => rfl
  | append_singleton text c ih =>
    have before := ih fun c' hc' => h c' (List.mem_append_left _ hc')
    have last := toInt_sub_of_isDigit (h c (List.mem_append_right _ List.mem_cons_self))
    rw [value_concat, total_concat, before, last]
    push_cast
    rfl

/-- The total may be reduced after every digit. -/
theorem foldl_bmod (m : Nat) (x : Int) (text : List Byte) :
    text.foldl (fun x c => Int.bmod (x * 10 + (c.toInt - 48)) m) (Int.bmod x m) =
      Int.bmod (total x text) m := by
  induction text generalizing x with
  | nil => rfl
  | cons c text ih =>
    have once : Int.bmod (Int.bmod x m * 10 + (c.toInt - 48)) m =
        Int.bmod (x * 10 + (c.toInt - 48)) m := by
      rw [← Int.bmod_add_bmod, Int.bmod_mul_bmod, Int.bmod_add_bmod]
    rw [List.foldl_cons, once, ih]
    rfl

theorem value_numeral (n : Nat) : value (numeral n) = n := by
  unfold numeral
  split
  · rename_i h
    rw [h]
    rfl
  · have digits : (Nat.digits 10 n).map (digit ∘ digitChar) = Nat.digits 10 n := by
      have same : ∀ d ∈ Nat.digits 10 n, (digit ∘ digitChar) d = id d := fun d hd =>
        digit_digitChar (Nat.digits_lt_base (by decide) hd)
      rw [List.map_congr_left same, List.map_id]
    rw [value, List.reverse_reverse, List.map_map, digits, Nat.ofDigits_digits]

theorem isDigit_of_mem_numeral (h : c ∈ numeral n) : IsDigit c := by
  unfold numeral at h
  split at h
  · rw [List.mem_singleton.mp h]
    exact isDigit_digitChar (by decide)
  · obtain ⟨d, hd, rfl⟩ := List.mem_map.mp (List.mem_reverse.mp h)
    exact isDigit_digitChar (Nat.digits_lt_base (by decide) hd)

theorem numeral_ne_nil (n : Nat) : numeral n ≠ [] := by
  unfold numeral
  split
  · exact List.cons_ne_nil _ _
  · rename_i h
    rw [Ne, List.reverse_eq_nil_iff, List.map_eq_nil_iff]
    exact Nat.digits_ne_nil_iff_ne_zero.mpr h

end NachOS.Lib.Decimal
