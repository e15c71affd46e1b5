import NachOS.Lib.Decimal
import NachOS.Userprog.ExceptionHandler

/-!
# Numbers on the console (userprog/ksyscall.h:86-152)

`SysReadNum` skips blanks and reads one token up to the blank behind it. The digits are
added up in a `long long` whatever the token looks like; what is checked is that all
characters were digits and that the total is a 32-bit number. `SysPrintNum` takes the
digits of the magnitude apart with the operators of C, from the last one on.

The console is given by the bytes of the host. A call that has met the byte 0xFF waits for
a character that does not come (`delivered`).
-/
namespace NachOS.Userprog
open NachOS.Lib NachOS.Lib.Decimal

/-- A run of characters that are neither spaces nor newlines. -/
structure Token where
  text : List Byte
  nonempty : text ≠ []
  plain : ∀ ch ∈ text, isBlank ch = false

section Grammar

/-- The text behind an optional minus. -/
def unsigned (text : List Byte) : List Byte := if text.head? = some 45 then text.tail else text

/-- An optional minus followed by one or more digits. -/
def IsNumeral (text : List Byte) : Prop :=
  unsigned text ≠ [] ∧ ∀ ch ∈ unsigned text, IsDigit ch

instance (text : List Byte) : Decidable (IsNumeral text) := inferInstanceAs (Decidable (_ ∧ _))

/-- The integer that a numeral denotes. -/
def denoted (text : List Byte) : Int :=
  if text.head? = some 45 then -(value (unsigned text) : Int) else value (unsigned text)

/-- The values of a 32-bit `int`. -/
def IsInt32 (x : Int) : Prop := -2147483648 ≤ x ∧ x ≤ 2147483647

instance (x : Int) : Decidable (IsInt32 x) := inferInstanceAs (Decidable (_ ∧ _))

/-- The number that a token stands for; 0 for a token that stands for none. -/
def tokenValue (text : List Byte) : Int :=
  if IsNumeral text ∧ IsInt32 (denoted text) then denoted text else 0

/-- The number that `SysReadNum` makes of a token. -/
def tokenResult (text : List Byte) : Int :=
  if IsNumeral text ∧ IsInt32 (int64 (denoted text)) then int64 (denoted text) else 0

/-- A number that is no 32-bit number but looks like one, other than 0, in 64 bits. -/
def WrapsAround (x : Int) : Prop :=
  ∃ k r : Int, k ≠ 0 ∧ x = k * 2 ^ 64 + r ∧ r ≠ 0 ∧ IsInt32 r

end Grammar

section Reading

variable {ch sep : Byte} {lead text rest : List Byte}

theorem isDigit_iff (ch : Byte) : isDigit ch = true ↔ IsDigit ch := by
  have value := BitVec.toInt_eq_toNat_cond ch
  have := ch.isLt
  simp only [isDigit, IsDigit, Bool.and_eq_true, decide_eq_true_eq]
  omega

theorem not_isBlank_of_isDigit (h : IsDigit ch) : isBlank ch = false := by
  revert ch
  decide

theorem all_isDigit_iff (text : List Byte) :
    text.all isDigit = true ↔ ∀ ch ∈ text, IsDigit ch := by
  simp only [List.all_eq_true, isDigit_iff]

theorem skipBlanks_append (blanks : ∀ ch ∈ lead, isBlank ch = true) (rest : List Byte) :
    skipBlanks (lead ++ rest) = skipBlanks rest := by
  induction lead with
  | nil => rfl
  | cons ch lead ih =>
    rw [List.cons_append, skipBlanks, if_pos (blanks ch List.mem_cons_self)]
    exact ih fun c hc => blanks c (List.mem_cons_of_mem _ hc)

/-- The loop of `SysReadNum` over the rest of a token. -/
theorem readDigits_append (plain : ∀ ch ∈ text, isBlank ch = false) (blank : isBlank sep = true)
    (num : Int) (isInteger : Bool) (buffer : Byte) (rest : List Byte) :
    readDigits num isInteger buffer (text ++ sep :: rest) =
      .ok ((buffer :: text).foldl (fun x ch => int64 (x * 10 + (ch.toInt - 48))) num,
        isInteger && text.all isDigit, rest) := by
  induction text generalizing num isInteger buffer with
  | nil =>
    rw [List.nil_append, readDigits, if_pos blank]
    simp
  | cons ch text ih =>
    rw [List.cons_append, readDigits, if_neg (by simp [plain ch List.mem_cons_self]),
      ih fun c hc => plain c (List.mem_cons_of_mem _ hc)]
    simp [Bool.and_assoc]

/-- Without a blank behind the token the loop waits. -/
theorem readDigits_waiting (plain : ∀ ch ∈ text, isBlank ch = false) (num : Int)
    (isInteger : Bool) (buffer : Byte) :
    readDigits num isInteger buffer text = .error .waiting := by
  induction text generalizing num isInteger buffer with
  | nil => rfl
  | cons ch text ih =>
    rw [readDigits, if_neg (by simp [plain ch List.mem_cons_self])]
    exact ih (fun c hc => plain c (List.mem_cons_of_mem _ hc)) _ _ _

/-- The total in 64 bits. -/
theorem foldl_int64 (text : List Byte) :
    text.foldl (fun x ch => int64 (x * 10 + (ch.toInt - 48))) 0 = int64 (total 0 text) :=
  foldl_bmod (2 ^ 64) 0 text

theorem int64_neg (x : Int) : int64 (-int64 x) = int64 (-x) := by
  unfold int64
  rw [← Int.zero_sub, Int.sub_bmod_bmod, Int.zero_sub]

/-- The result for the characters of a number, with the minus in front of them. -/
theorem numResult_total (text : List Byte) (isNegative : Bool) :
    numResult (int64 (total 0 text)) (text.all isDigit) isNegative =
      if (∀ ch ∈ text, IsDigit ch) ∧
          IsInt32 (int64 (if isNegative then -(value text : Int) else value text)) then
        int64 (if isNegative then -(value text : Int) else value text) else 0 := by
  by_cases digits : ∀ ch ∈ text, IsDigit ch
  · have negated : (if isNegative then int64 (-int64 (value text)) else int64 (value text)) =
        int64 (if isNegative then -(value text : Int) else value text) := by
      rw [int64_neg]
      split
      · rfl
      · rfl
    rw [(all_isDigit_iff text).mpr digits, total_eq_value digits]
    unfold numResult
    rw [negated]
    generalize int64 (if isNegative then -(value text : Int) else value text) = num
    rw [if_neg (by decide)]
    by_cases range : IsInt32 num
    · have inside : ¬(num > 2147483647 ∨ num < -2147483648) := by
        have := range.1
        have := range.2
        omega
      rw [if_neg inside, if_pos ⟨digits, range⟩]
    · have outside : num > 2147483647 ∨ num < -2147483648 := by
        unfold IsInt32 at range
        omega
      rw [if_pos outside, if_neg fun h => range h.2]
  · have other : text.all isDigit = false := by
      rw [← Bool.not_eq_true, all_isDigit_iff]
      exact digits
    rw [if_neg fun h => digits h.1, other]
    simp [numResult]

theorem tokenResult_lone : tokenResult [45] = 0 := by decide

theorem tokenResult_minus (nonempty : text ≠ []) :
    tokenResult (45 :: text) = numResult (int64 (total 0 text)) (text.all isDigit) true := by
  rw [numResult_total]
  simp [tokenResult, IsNumeral, denoted, unsigned, nonempty]

theorem tokenResult_digits (first : ch ≠ 45) (text : List Byte) :
    tokenResult (ch :: text) =
      numResult (int64 (total 0 (ch :: text))) ((ch :: text).all isDigit) false := by
  have other : ¬(ch :: text).head? = some 45 := fun h => first (Option.some.inj h)
  rw [numResult_total]
  unfold tokenResult IsNumeral denoted unsigned
  simp only [if_neg other]
  simp

/-- A call once it has found the first character of a token. -/
theorem sysReadNum_first (blanks : ∀ ch ∈ lead, isBlank ch = true) (first : isBlank ch = false)
    (input : List Byte) :
    sysReadNum (lead ++ ch :: input) =
      (if ch = 45 then do
        let (buffer, input) ← getChar input
        if isBlank buffer then .ok (0, input)
        else
          let (num, isInteger, input) ← readDigits 0 (isDigit buffer) buffer input
          .ok (numResult num isInteger true, input)
      else do
        let (num, isInteger, input) ← readDigits 0 (isDigit ch) ch input
        .ok (numResult num isInteger false, input)) := by
  unfold sysReadNum
  rw [skipBlanks_append blanks, skipBlanks, if_neg (by simp [first])]
  rfl

/-- One call reads the blanks, the token and the blank behind it. -/
theorem sysReadNum_append (t : Token) (blanks : ∀ ch ∈ lead, isBlank ch = true)
    (blank : isBlank sep = true) (rest : List Byte) :
    sysReadNum (lead ++ (t.text ++ sep :: rest)) = .ok (tokenResult t.text, rest) := by
  obtain ⟨text, nonempty, plain⟩ := t
  cases text with
  | nil => exact absurd rfl nonempty
  | cons ch text =>
    have first : isBlank ch = false := plain ch List.mem_cons_self
    have others : ∀ c ∈ text, isBlank c = false := fun c hc => plain c (List.mem_cons_of_mem _ hc)
    rw [List.cons_append, sysReadNum_first blanks first]
    by_cases minus : ch = 45
    · subst minus
      rw [if_pos rfl]
      cases text with
      | nil =>
        rw [List.nil_append, getChar, Exec.ok_bind, tokenResult_lone]
        exact if_pos blank
      | cons c text =>
        have second : isBlank c = false := others c List.mem_cons_self
        have digits := readDigits_append (fun c hc => others c (List.mem_cons_of_mem _ hc)) blank
          0 (isDigit c) c rest
        rw [foldl_int64] at digits
        rw [List.cons_append, getChar, Exec.ok_bind, tokenResult_minus (List.cons_ne_nil _ _)]
        dsimp only
        rw [if_neg (by simp [second]), digits]
        rfl
    · rw [if_neg minus, readDigits_append others blank, foldl_int64, Exec.ok_bind,
        tokenResult_digits minus]
      rfl

/-- Without a blank behind the token the call waits. -/
theorem sysReadNum_waiting (blanks : ∀ ch ∈ lead, isBlank ch = true)
    (plain : ∀ ch ∈ text, isBlank ch = false) :
    sysReadNum (lead ++ text) = .error .waiting := by
  cases text with
  | nil =>
    unfold sysReadNum
    rw [skipBlanks_append blanks]
    rfl
  | cons ch text =>
    have first : isBlank ch = false := plain ch List.mem_cons_self
    have others : ∀ c ∈ text, isBlank c = false := fun c hc => plain c (List.mem_cons_of_mem _ hc)
    rw [sysReadNum_first blanks first]
    by_cases minus : ch = 45
    · rw [if_pos minus]
      cases text with
      | nil => rfl
      | cons c text =>
        have second : isBlank c = false := others c List.mem_cons_self
        rw [getChar, Exec.ok_bind]
        dsimp only
        rw [if_neg (by simp [second]),
          readDigits_waiting fun c hc => others c (List.mem_cons_of_mem _ hc)]
        rfl
    · rw [if_neg minus, readDigits_waiting others]
      rfl

theorem eof_not_mem_of_blanks (blanks : ∀ ch ∈ lead, isBlank ch = true) : EOF ∉ lead := by
  intro h
  exact absurd (blanks EOF h) (by decide)

/-- One call on the bytes of the host. -/
theorem sysReadNum_delivered (t : Token) (lead : List Byte) (sep : Byte) (rest : List Byte)
    (blanks : ∀ ch ∈ lead, isBlank ch = true) (blank : isBlank sep = true) :
    sysReadNum (delivered (lead ++ (t.text ++ sep :: rest))) =
      if EOF ∈ t.text then .error .waiting else .ok (tokenResult t.text, delivered rest) := by
  rw [delivered_append (eof_not_mem_of_blanks blanks)]
  split
  · rename_i eof
    apply sysReadNum_waiting blanks
    intro ch hch
    exact t.plain ch ((delivered_append_of_mem eof _).subset hch)
  · rename_i chars
    have back : EOF ∉ [sep] := eof_not_mem_of_blanks (by simpa using blank)
    rw [delivered_append chars, ← List.singleton_append, delivered_append back,
      List.singleton_append, sysReadNum_append t blanks blank]

end Reading

section Range

variable {x : Int}

theorem int64_of_isInt32 (h : IsInt32 x) : int64 x = x := by
  have low := h.1
  have high := h.2
  exact Int.bmod_eq_of_le (by omega) (by omega)

theorem wrapsAround_iff (outside : ¬IsInt32 x) :
    WrapsAround x ↔ IsInt32 (int64 x) ∧ int64 x ≠ 0 := by
  constructor
  · intro ⟨k, r, _, split, nonzero, range⟩
    have wrapped : int64 x = r := by
      rw [split, int64]
      exact (Int.mul_add_bmod_self_right k (2 ^ 64) r).trans (int64_of_isInt32 range)
    rw [wrapped]
    exact ⟨range, nonzero⟩
  · intro ⟨range, nonzero⟩
    have split : Int.bdiv x (2 ^ 64) * (2 ^ 64 : Nat) + int64 x = x := Int.bdiv_add_bmod' x (2 ^ 64)
    refine ⟨Int.bdiv x (2 ^ 64), int64 x, ?_, split.symm, nonzero, range⟩
    intro zero
    rw [zero] at split
    rw [← split] at outside
    apply outside
    simpa using range

theorem not_wrapsAround (h : IsInt32 x) : ¬WrapsAround x := by
  intro ⟨k, r, other, split, _, range⟩
  unfold IsInt32 at h range
  omega

/-- What `SysReadNum` makes of a token differs from the number of the token exactly when
the 64 bits of the total hide that the number is out of range. -/
theorem tokenResult_eq_tokenValue_iff (text : List Byte) :
    tokenResult text = tokenValue text ↔ ¬(IsNumeral text ∧ WrapsAround (denoted text)) := by
  unfold tokenResult tokenValue
  by_cases numeral : IsNumeral text
  · by_cases range : IsInt32 (denoted text)
    · rw [int64_of_isInt32 range]
      exact iff_of_true rfl fun h => not_wrapsAround range h.2
    · rw [wrapsAround_iff range]
      by_cases wrapped : IsInt32 (int64 (denoted text))
      · simp [numeral, range, wrapped]
      · simp [range, wrapped]
  · simp [numeral]

end Range

/-- A call returns the number that the token stands for, unless the token holds the byte
0xFF or is the numeral of a number whose 64-bit total is a 32-bit number other than 0. -/
theorem readNum_exact_iff (t : Token) (lead : List Byte) (sep : Byte) (rest : List Byte)
    (blanks : ∀ ch ∈ lead, isBlank ch = true) (blank : isBlank sep = true) :
    (∃ input, sysReadNum (delivered (lead ++ (t.text ++ sep :: rest))) =
        .ok (tokenValue t.text, input)) ↔
      EOF ∉ t.text ∧ ¬(IsNumeral t.text ∧ WrapsAround (denoted t.text)) := by
  rw [sysReadNum_delivered t lead sep rest blanks blank, ← tokenResult_eq_tokenValue_iff]
  by_cases eof : EOF ∈ t.text
  · rw [if_pos eof]
    apply iff_of_false
    · intro ⟨input, h⟩
      cases h
    · intro h
      exact h.1 eof
  · rw [if_neg eof]
    constructor
    · intro ⟨input, h⟩
      exact ⟨eof, congrArg Prod.fst (Except.ok.inj h)⟩
    · intro ⟨_, same⟩
      exact ⟨delivered rest, by rw [same]⟩

/-- The token `-42`, behind a space and in front of a newline. -/
theorem readNum_exact_iff_minus_42 :
    ∃ input, sysReadNum (delivered ([32] ++ ([45, 52, 50] ++ 10 :: [57]))) = .ok (-42, input) := by
  have plain : ∀ ch ∈ [45, 52, 50], isBlank ch = false := by decide
  have range : IsInt32 (denoted [45, 52, 50]) := by decide +kernel
  have number : tokenValue [45, 52, 50] = -42 := by decide +kernel
  have meets : EOF ∉ [45, 52, 50] ∧ ¬(IsNumeral [45, 52, 50] ∧ WrapsAround (denoted [45, 52, 50])) :=
    ⟨by decide, fun h => not_wrapsAround range h.2⟩
  have returns := (readNum_exact_iff ⟨[45, 52, 50], List.cons_ne_nil _ _, plain⟩ [32] 10 [57]
    (by decide) (by decide)).mpr meets
  rw [number] at returns
  exact returns

/-- The numeral of `2 ^ 64 + 1`. -/
def overlong : Token where
  text := [49, 56, 52, 52, 54, 55, 52, 52, 48, 55, 51, 55, 48, 57, 53, 53, 49, 54, 49, 55]
  nonempty := List.cons_ne_nil _ _
  plain := by decide

theorem readNum_overlong :
    denoted overlong.text = 18446744073709551617 ∧ tokenValue overlong.text = 0 ∧
    sysReadNum (delivered (overlong.text ++ 10 :: [])) = .ok (1, [EOF]) ∧
    ¬∃ input, sysReadNum (delivered (overlong.text ++ 10 :: [])) =
      .ok (tokenValue overlong.text, input) := by
  have number : tokenValue overlong.text = 0 := by decide +kernel
  have total : tokenResult overlong.text = 1 := by decide +kernel
  have result : sysReadNum (delivered (overlong.text ++ 10 :: [])) = .ok (1, [EOF]) := by
    have call := sysReadNum_delivered overlong [] 10 [] (by decide) (by decide)
    rw [if_neg (by decide), total] at call
    exact call
  refine ⟨by decide +kernel, number, result, ?_⟩
  intro ⟨input, h⟩
  rw [result, number] at h
  cases h

section Successive

/-- Successive calls of `SysReadNum`. -/
def readNums : Nat → List Byte → Call (List Int × List Byte)
  | 0, input => .ok ([], input)
  | k + 1, input => do
    let (num, input) ← sysReadNum input
    let (nums, input) ← readNums k input
    .ok (num :: nums, input)

/-- A token and the separators behind it. -/
structure Item where
  token : Token
  separator : Byte
  separators : List Byte
  blank : isBlank separator = true
  blanks : ∀ ch ∈ separators, isBlank ch = true

/-- The text of a token and of the separators behind it. -/
def Item.text (item : Item) : List Byte := item.token.text ++ item.separator :: item.separators

variable {lead : List Byte}

theorem sysReadNum_item (item : Item) (blanks : ∀ ch ∈ lead, isBlank ch = true)
    (rest : List Byte) :
    sysReadNum (delivered (lead ++ (item.text ++ rest))) =
      if EOF ∈ item.token.text then .error .waiting
      else .ok (tokenResult item.token.text, delivered (item.separators ++ rest)) := by
  rw [Item.text, List.append_assoc, List.cons_append]
  exact sysReadNum_delivered item.token lead item.separator (item.separators ++ rest) blanks
    item.blank

/-- Successive calls on the bytes of the host. -/
theorem readNums_delivered (items : List Item) (last : Item) (rest : List Byte)
    (blanks : ∀ ch ∈ lead, isBlank ch = true) :
    readNums (items.length + 1)
        (delivered (lead ++ (items.flatMap Item.text ++ (last.text ++ rest)))) =
      if ∃ item ∈ items ++ [last], EOF ∈ item.token.text then .error .waiting
      else .ok ((items ++ [last]).map fun item => tokenResult item.token.text,
        delivered (last.separators ++ rest)) := by
  induction items generalizing lead with
  | nil =>
    rw [List.length_nil, readNums, List.flatMap_nil, List.nil_append, sysReadNum_item last blanks]
    by_cases eof : EOF ∈ last.token.text
    · simp [eof]
    · simp [eof, readNums]
  | cons item items ih =>
    rw [List.length_cons, readNums, List.flatMap_cons, List.append_assoc,
      sysReadNum_item item blanks]
    by_cases eof : EOF ∈ item.token.text
    · simp [eof]
    · rw [if_neg eof, Exec.ok_bind]
      dsimp only
      rw [ih item.blanks]
      by_cases later : ∃ item ∈ items ++ [last], EOF ∈ item.token.text
      · rw [if_pos later, if_pos]
        · rfl
        · obtain ⟨other, mem, has⟩ := later
          exact ⟨other, List.mem_cons_of_mem _ mem, has⟩
      · rw [if_neg later, if_neg]
        · rfl
        · intro ⟨other, mem, has⟩
          rcases List.mem_cons.mp mem with same | mem
          · exact eof (same ▸ has)
          · exact later ⟨other, mem, has⟩

end Successive

/-- Successive calls return one number for each token, whatever the others are, and leave
what is behind the separator of the last one, unless the byte 0xFF is in one of the tokens.
What follows those tokens may be anything. -/
theorem readNums_exact_iff (lead : List Byte) (items : List Item) (last : Item)
    (rest : List Byte) (blanks : ∀ ch ∈ lead, isBlank ch = true) :
    readNums (items.length + 1)
        (delivered (lead ++ (items.flatMap Item.text ++ (last.text ++ rest)))) =
      .ok ((items ++ [last]).map fun item => tokenResult item.token.text,
        delivered (last.separators ++ rest)) ↔
      ∀ item ∈ items ++ [last], EOF ∉ item.token.text := by
  rw [readNums_delivered items last rest blanks]
  by_cases eof : ∃ item ∈ items ++ [last], EOF ∈ item.token.text
  · rw [if_pos eof]
    apply iff_of_false
    · intro h
      cases h
    · intro all
      obtain ⟨item, mem, has⟩ := eof
      exact all item mem has
  · rw [if_neg eof]
    exact iff_of_true rfl fun item mem has => eof ⟨item, mem, has⟩

/-- Three tokens, the first two of which are no numerals: `-`, `1x` and `7`. -/
theorem readNums_exact_iff_after_malformed :
    readNums 3 (delivered [32, 45, 10, 49, 120, 32, 32, 55, 10, 10]) =
      .ok ([0, 0, 7], delivered [10]) := by
  have lone : tokenResult [45] = 0 := tokenResult_lone
  have malformed : tokenResult [49, 120] = 0 := by decide +kernel
  have number : tokenResult [55] = 7 := by decide +kernel
  have calls := (readNums_exact_iff [32]
    [⟨⟨[45], List.cons_ne_nil _ _, by decide⟩, 10, [], by decide, by decide⟩,
      ⟨⟨[49, 120], List.cons_ne_nil _ _, by decide⟩, 32, [32], by decide, by decide⟩]
    ⟨⟨[55], List.cons_ne_nil _ _, by decide⟩, 10, [10], by decide, by decide⟩ [] (by decide)).mpr
    (by decide)
  simp only [List.map_append, List.map_cons, List.map_nil, lone, malformed, number] at calls
  exact calls

/-- The token 0xFF leaves the console without a poll: the call on it does not return. -/
theorem readNums_stop_at_0xFF :
    readNums 2 (delivered [0xFF, 10, 49, 10]) = .error .waiting ∧
    readNums 2 (delivered [0xFF, 10, 49, 10]) ≠
      .ok ([tokenResult [0xFF], tokenResult [49]], delivered []) := by
  have waits : readNums 2 (delivered [0xFF, 10, 49, 10]) = .error .waiting := rfl
  refine ⟨waits, ?_⟩
  rw [waits]
  intro h
  cases h

section Printing

variable {n : Nat} {num : Int}

/-- The values that the loop of `SysPrintNum` stores, from `arr[0]` on. -/
def storedDigits (num : Int) : Nat → Exec (List Int)
  | 0 => if num = 0 then .ok [] else .error .outOfBounds
  | room + 1 =>
    if num = 0 then .ok []
    else do
      let stored ← storedDigits (num.tdiv 10) room
      .ok (num.tmod 10 :: stored)

/-- `SysPrintNum` puts out what the loop has stored, the last value first. -/
theorem printDigits_eq (num : Int) (room : Nat) :
    printDigits num room = (storedDigits num room).map fun arr =>
      (arr.map fun d => BitVec.ofInt 8 (48 + d)).reverse := by
  induction room generalizing num with
  | zero =>
    unfold printDigits storedDigits
    split <;> rfl
  | succ room ih =>
    unfold printDigits storedDigits
    split
    · rfl
    · rw [ih]
      cases storedDigits (num.tdiv 10) room with
      | error fault => rfl
      | ok arr => simp [Except.map]

/-- The loop takes a number that is not negative apart into its digits. -/
theorem storedDigits_natCast {room : Nat} (h : n < 10 ^ room) :
    storedDigits n room = .ok ((Nat.digits 10 n).map Nat.cast) := by
  induction room generalizing n with
  | zero =>
    have zero : n = 0 := by omega
    rw [zero]
    rfl
  | succ room ih =>
    unfold storedDigits
    by_cases zero : n = 0
    · rw [zero]
      rfl
    · have smaller : n / 10 < 10 ^ room := by
        rw [Nat.pow_succ] at h
        omega
      have quotient : (n : Int).tdiv 10 = (n / 10 : Nat) := by
        rw [Int.tdiv_eq_ediv_of_nonneg (Int.natCast_nonneg n)]
        rfl
      have remainder : (n : Int).tmod 10 = (n % 10 : Nat) := by
        rw [Int.tmod_eq_emod_of_nonneg (Int.natCast_nonneg n)]
        rfl
      rw [if_neg (by omega), quotient, ih smaller, remainder,
        Nat.digits_def' (by decide) (Nat.pos_of_ne_zero zero)]
      rfl

/-- The number that the loop of `SysPrintNum` starts from. -/
def magnitude (num : Int) : Int := if num < 0 then int32 (-num) else num

theorem magnitude_eq_natAbs (range : IsInt32 num) (other : num ≠ -2147483648) :
    magnitude num = num.natAbs := by
  have low := range.1
  have high := range.2
  unfold magnitude
  split
  · rw [int32_of_range (by omega) (by omega)]
    omega
  · omega

theorem natAbs_lt (range : IsInt32 num) : num.natAbs < 10 ^ 10 := by
  have low := range.1
  have high := range.2
  omega

theorem ofInt_digit (d : Nat) : BitVec.ofInt 8 (48 + (d : Int)) = digitChar d := by
  unfold digitChar
  exact BitVec.ofInt_natCast 8 (48 + d)

/-- What `SysPrintNum` puts out for every number but one: the digits, and no sign. -/
theorem sysPrintNum_eq (range : IsInt32 num) (other : num ≠ -2147483648) :
    sysPrintNum num = .ok (numeral num.natAbs) := by
  unfold sysPrintNum
  by_cases zero : num = 0
  · rw [if_pos zero, zero]
    rfl
  · have text : numeral num.natAbs = ((Nat.digits 10 num.natAbs).map digitChar).reverse :=
      if_neg (by omega)
    have start := magnitude_eq_natAbs range other
    unfold magnitude at start
    rw [if_neg zero, start, printDigits_eq, storedDigits_natCast (natAbs_lt range), text]
    simp [Except.map, ofInt_digit]

/-- `-2 ^ 31` is its own negative: the remainders are negative too. -/
theorem storedDigits_min :
    storedDigits (magnitude (-2147483648)) 10 = .ok [-8, -4, -6, -3, -8, -4, -7, -4, -1, -2] := by
  decide +kernel

/-- The characters `'0' - 2` and so on. -/
def garbled : List Byte := [46, 47, 44, 41, 44, 40, 45, 42, 44, 40]

theorem sysPrintNum_min : sysPrintNum (-2147483648) = .ok garbled := by
  decide +kernel

/-- `SysReadNum` on a line with a numeral. -/
theorem sysReadNum_numeral (small : n ≤ 2147483647) :
    sysReadNum (delivered (numeral n ++ [10])) = .ok ((n : Int), delivered []) := by
  have digits : ∀ ch ∈ numeral n, IsDigit ch := fun ch h => isDigit_of_mem_numeral h
  have plain : ∀ ch ∈ numeral n, isBlank ch = false := fun ch h =>
    not_isBlank_of_isDigit (digits ch h)
  have chars : EOF ∉ numeral n := by
    intro h
    exact absurd (digits EOF h) (by decide)
  have positive : ¬(numeral n).head? = some 45 := by
    intro h
    exact absurd (digits 45 (List.mem_of_head? h)) (by decide)
  have number : denoted (numeral n) = n := by
    unfold denoted unsigned
    rw [if_neg positive, if_neg positive, value_numeral]
  have range : IsInt32 n := by
    unfold IsInt32
    omega
  have result : tokenResult (numeral n) = n := by
    unfold tokenResult
    rw [number, int64_of_isInt32 range, if_pos]
    refine ⟨?_, range⟩
    unfold IsNumeral unsigned
    rw [if_neg positive]
    exact ⟨numeral_ne_nil n, digits⟩
  have call := sysReadNum_delivered ⟨numeral n, numeral_ne_nil n, plain⟩ [] 10 [] (by simp)
    (by decide)
  rw [if_neg chars, result] at call
  exact call

theorem sysReadNum_garbled :
    sysReadNum (delivered (garbled ++ [10])) = .ok (0, delivered []) := by
  rfl

end Printing

/-- A number that is printed and read back on a line is the same again exactly when it is
not negative: `SysPrintNum` puts out no minus. -/
theorem printNum_readNum_iff (num : Int) (range : IsInt32 num) :
    (∃ text input, sysPrintNum num = .ok text ∧
      sysReadNum (delivered (text ++ [10])) = .ok (num, input)) ↔ 0 ≤ num := by
  by_cases least : num = -2147483648
  · subst least
    apply iff_of_false
    · intro ⟨text, input, printed, readBack⟩
      rw [sysPrintNum_min] at printed
      cases printed
      rw [sysReadNum_garbled] at readBack
      cases readBack
    · decide
  · have small : num.natAbs ≤ 2147483647 := by
      have := range.1
      have := range.2
      omega
    rw [sysPrintNum_eq range least]
    constructor
    · intro ⟨text, input, printed, readBack⟩
      cases printed
      rw [sysReadNum_numeral small] at readBack
      have same := congrArg Prod.fst (Except.ok.inj readBack)
      dsimp only at same
      omega
    · intro positive
      refine ⟨numeral num.natAbs, delivered [], rfl, ?_⟩
      rw [sysReadNum_numeral small, Int.natAbs_of_nonneg positive]

theorem printNum_readNum_iff_max :
    ∃ text input, sysPrintNum 2147483647 = .ok text ∧
      sysReadNum (delivered (text ++ [10])) = .ok (2147483647, input) :=
  (printNum_readNum_iff 2147483647 (by decide)).mpr (by decide)

/-- `-5` is printed as `5`. -/
theorem printNum_drops_sign :
    sysPrintNum (-5) = .ok [53] ∧
    ¬∃ text input, sysPrintNum (-5) = .ok text ∧
      sysReadNum (delivered (text ++ [10])) = .ok (-5, input) := by
  have printed : sysPrintNum (-5) = .ok [53] := rfl
  refine ⟨printed, ?_⟩
  rintro ⟨text, input, h, readBack⟩
  rw [printed] at h
  cases h
  cases readBack

/-- The loop of `SysPrintNum` ends within its ten places, stores digits only and puts out
the digits of the magnitude, for every number but `-2 ^ 31`. -/
theorem printNum_digits_iff (num : Int) (range : IsInt32 num) :
    (∃ arr text, storedDigits (magnitude num) 10 = .ok arr ∧ arr.length ≤ 10 ∧
      (∀ d ∈ arr, 0 ≤ d ∧ d ≤ 9) ∧ sysPrintNum num = .ok text ∧
      (text = numeral num.natAbs ∨ text = 45 :: numeral num.natAbs)) ↔ num ≠ -2147483648 := by
  by_cases least : num = -2147483648
  · subst least
    apply iff_of_false
    · intro ⟨arr, text, stored, _, digits, _⟩
      rw [storedDigits_min] at stored
      cases stored
      exact absurd digits (by decide)
    · intro other
      exact other rfl
  · refine iff_of_true ?_ least
    have small := natAbs_lt range
    refine ⟨(Nat.digits 10 num.natAbs).map Nat.cast, numeral num.natAbs, ?_, ?_, ?_,
      sysPrintNum_eq range least, .inl rfl⟩
    · rw [magnitude_eq_natAbs range least, storedDigits_natCast small]
    · rw [List.length_map]
      exact (Nat.digits_length_le_iff (by decide) _).mpr small
    · intro d hd
      obtain ⟨digit, mem, rfl⟩ := List.mem_map.mp hd
      have := Nat.digits_lt_base (by decide) mem
      omega

theorem printNum_digits_iff_negative :
    ∃ arr text, storedDigits (magnitude (-120)) 10 = .ok arr ∧ arr.length ≤ 10 ∧
      (∀ d ∈ arr, 0 ≤ d ∧ d ≤ 9) ∧ sysPrintNum (-120) = .ok text ∧
      (text = numeral (-120 : Int).natAbs ∨ text = 45 :: numeral (-120 : Int).natAbs) :=
  (printNum_digits_iff (-120) (by decide)).mpr (by decide)

/-- `-2 ^ 31` is printed as `./,),(-*,(`. -/
theorem printNum_least :
    storedDigits (magnitude (-2147483648)) 10 = .ok [-8, -4, -6, -3, -8, -4, -7, -4, -1, -2] ∧
    sysPrintNum (-2147483648) = .ok garbled ∧
    ¬∃ arr text, storedDigits (magnitude (-2147483648)) 10 = .ok arr ∧ arr.length ≤ 10 ∧
      (∀ d ∈ arr, 0 ≤ d ∧ d ≤ 9) ∧ sysPrintNum (-2147483648) = .ok text ∧
      (text = numeral (-2147483648 : Int).natAbs ∨
        text = 45 :: numeral (-2147483648 : Int).natAbs) := by
  refine ⟨storedDigits_min, sysPrintNum_min, ?_⟩
  rintro ⟨arr, text, stored, _, digits, _⟩
  rw [storedDigits_min] at stored
  cases stored
  exact absurd digits (by decide)

end NachOS.Userprog
