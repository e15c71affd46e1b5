import Mathlib.Data.Nat.Basic
import Mathlib.Logic.Function.Basic
import Mathlib.Tactic.Ring

/-!
# Bytes, buffers and 32-bit words

The memory a C++ pointer gives access to is a function from offsets to bytes. An
object whose bytes are copied to and from a device as they are (a cast to
`char *`) is read and written through `word` and `setWord`, little-endian 32-bit
accesses at byte offsets, so that the layout the program relies on is the layout
of the model.

`int32` is the wrap-around of 32-bit `int` arithmetic. A computation that an
assertion, an access outside an object or a failed allocation stops ends in a
`Fault`.
-/
namespace NachOS.Lib

inductive Fault where
  /-- An `ASSERT` failed. -/
  | assertion
  /-- An access outside of an object. -/
  | outOfBounds
  /-- `new` with a negative size. -/
  | badAlloc
  /-- A variable is read that was never set. -/
  | uninitialized
  /-- The machine was halted. -/
  | halted
  /-- An integer division whose quotient does not fit: the host traps. -/
  | arithmetic
  deriving DecidableEq

abbrev Exec := Except Fault

theorem Exec.bind_eq_ok {ε α β : Type} {x : Except ε α} {f : α → Except ε β} {r : β} :
    (x >>= f) = .ok r ↔ ∃ a, x = .ok a ∧ f a = .ok r := by
  cases x with
  | error e => simp [bind, Except.bind]
  | ok a => simp [bind, Except.bind]

@[simp] theorem Exec.ok_bind {ε α β : Type} (a : α) (f : α → Except ε β) :
    ((.ok a : Except ε α) >>= f) = f a := rfl

@[simp] theorem Exec.error_bind {ε α β : Type} (e : ε) (f : α → Except ε β) :
    ((.error e : Except ε α) >>= f) = .error e := rfl

theorem Exec.toOption_eq_some {ε α : Type} {x : Except ε α} {a : α} :
    x.toOption = some a ↔ x = .ok a := by
  cases x with
  | error e => simp [Except.toOption]
  | ok r => simp [Except.toOption]

/-- A step that may be impossible, and may fail. -/
theorem Exec.bind_toOption_eq_some {ε α : Type} {x : Option (Except ε α)} {a : α} :
    x.bind Except.toOption = some a ↔ x = some (.ok a) := by
  cases x with
  | none => simp
  | some r => simp [Exec.toOption_eq_some]

/-- A step that may be impossible, and may fail, of a part of the state. -/
theorem Exec.map_eq_some_ok {ε α β : Type} {x : Option (Except ε α)} {f : α → β} {b : β} :
    x.map (Except.map f) = some (.ok b) ↔ ∃ a, x = some (.ok a) ∧ f a = b := by
  cases x with
  | none => simp
  | some r =>
    cases r with
    | error e => simp [Except.map]
    | ok a => simp [Except.map]

theorem Exec.map_eq_some_error {ε α β : Type} {x : Option (Except ε α)} {f : α → β} {e : ε} :
    x.map (Except.map f) = some (.error e) ↔ x = some (.error e) := by
  cases x with
  | none => simp
  | some r =>
    cases r with
    | error e => simp [Except.map]
    | ok a => simp [Except.map]

/-- The state component of a computation that returns. -/
theorem Exec.toOption_map_snd {α β : Type} {x : Exec (α × β)} {b : β} :
    x.toOption.map Prod.snd = some b ↔ ∃ a, x = .ok (a, b) := by
  cases x with
  | error e => simp [Except.toOption]
  | ok r =>
    obtain ⟨a, c⟩ := r
    simp [Except.toOption]

/-- `ASSERT(condition)`. -/
def check (condition : Prop) [Decidable condition] (fault : Fault) : Exec Unit :=
  if condition then .ok () else .error fault

theorem check_true {condition : Prop} [Decidable condition] {fault : Fault} (h : condition) :
    check condition fault = .ok () :=
  if_pos h

theorem check_eq_ok {condition : Prop} [Decidable condition] {fault : Fault} :
    check condition fault = .ok () ↔ condition := by
  unfold check
  split <;> simp [*]

section Int32

/-- The value of a C `int` expression whose exact value is `x`. -/
def int32 (x : Int) : Int := Int.bmod x (2 ^ 32)

theorem int32_of_range {x : Int} (low : -2147483648 ≤ x) (high : x ≤ 2147483647) : int32 x = x := by
  unfold int32
  rw [Int.bmod_def]
  norm_num at *
  split <;> omega

@[simp] theorem int32_zero : int32 0 = 0 := rfl

@[simp] theorem int32_one : int32 1 = 1 := rfl

/-- An `int` argument. -/
abbrev CInt := BitVec 32

theorem CInt.range (x : CInt) : -2147483648 ≤ x.toInt ∧ x.toInt ≤ 2147483647 := by
  have low := BitVec.le_toInt x
  have high := BitVec.toInt_lt (x := x)
  norm_num at *
  omega

end Int32

abbrev Byte := BitVec 8

abbrev Buf := Nat → Byte

/-- `bcopy(src, &dst[start], n)`. -/
def blit (dst : Buf) (start : Nat) (src : Buf) (n : Nat) : Buf :=
  fun i => bif start.ble i && i.blt (start + n) then src (i - start) else dst i

theorem blit_inside {dst src : Buf} {start n i : Nat} (low : start ≤ i) (high : i < start + n) :
    blit dst start src n i = src (i - start) := by
  have within : (start.ble i && i.blt (start + n)) = true := by
    simp [Nat.ble_eq, Nat.blt_eq, low, high]
  simp [blit, within]

theorem blit_outside {dst src : Buf} {start n i : Nat} (h : i < start ∨ start + n ≤ i) :
    blit dst start src n i = dst i := by
  have without : (start.ble i && i.blt (start + n)) = false := by
    rw [Bool.eq_false_iff]
    simp only [ne_eq, Bool.and_eq_true, Nat.ble_eq, Nat.blt_eq]
    omega
  simp [blit, without]

theorem blit_congr {dst src src' : Buf} {start n : Nat} (same : ∀ i < n, src i = src' i) :
    blit dst start src n = blit dst start src' n := by
  funext i
  by_cases inside : start ≤ i ∧ i < start + n
  · rw [blit_inside inside.1 inside.2, blit_inside inside.1 inside.2, same (i - start) (by omega)]
  · rw [blit_outside (by omega), blit_outside (by omega)]

theorem blit_congr_dst {dst dst' src : Buf} {start n i : Nat}
    (same : ¬ (start ≤ i ∧ i < start + n) → dst i = dst' i) :
    blit dst start src n i = blit dst' start src n i := by
  by_cases inside : start ≤ i ∧ i < start + n
  · rw [blit_inside inside.1 inside.2, blit_inside inside.1 inside.2]
  · rw [blit_outside (by omega), blit_outside (by omega), same inside]

/-- The bytes from `start` on, where there are enough of them. -/
theorem length_slice {bytes : List Byte} {start n : Nat} (inside : start + n ≤ bytes.length) :
    ((bytes.drop start).take n).length = n := by
  rw [List.length_take, List.length_drop]
  omega

/-- The 32-bit word at offset `a`. -/
def word (b : Buf) (a : Nat) : BitVec 32 :=
  b (a + 3) ++ b (a + 2) ++ b (a + 1) ++ b a

/-- Store the 32-bit word `v` at offset `a`. -/
def setWord (b : Buf) (a : Nat) (v : BitVec 32) : Buf :=
  blit b a (fun k => v.extractLsb' (8 * k) 8) 4

theorem word_congr {b c : Buf} {a : Nat} (h : ∀ k, a ≤ k → k < a + 4 → b k = c k) :
    word b a = word c a := by
  unfold word
  rw [h a (by omega) (by omega), h (a + 1) (by omega) (by omega),
    h (a + 2) (by omega) (by omega), h (a + 3) (by omega) (by omega)]

theorem setWord_outside {b : Buf} {a k : Nat} {v : BitVec 32} (h : k < a ∨ a + 4 ≤ k) :
    setWord b a v k = b k :=
  blit_outside h

theorem setWord_at {b : Buf} {a k : Nat} {v : BitVec 32} (h : k < 4) :
    setWord b a v (a + k) = v.extractLsb' (8 * k) 8 := by
  unfold setWord
  rw [blit_inside (by omega) (by omega), Nat.add_sub_cancel_left]

@[simp] theorem word_setWord (b : Buf) (a : Nat) (v : BitVec 32) : word (setWord b a v) a = v := by
  unfold word
  rw [setWord_at (by omega), setWord_at (by omega), setWord_at (by omega)]
  have first := setWord_at (b := b) (a := a) (v := v) (k := 0) (by omega)
  rw [Nat.add_zero] at first
  rw [first]
  ext i hi
  simp only [BitVec.getElem_append, BitVec.getElem_extractLsb']
  split
  · simp [BitVec.getLsbD_eq_getElem hi]
  · split
    · have : 8 * 1 + (i - 8) = i := by omega
      rw [this, BitVec.getLsbD_eq_getElem hi]
    · split
      · have : 8 * 2 + (i - 8 - 8) = i := by omega
        rw [this, BitVec.getLsbD_eq_getElem hi]
      · have : 8 * 3 + (i - 8 - 8 - 8) = i := by omega
        rw [this, BitVec.getLsbD_eq_getElem hi]

theorem word_setWord_of_disjoint {b : Buf} {a c : Nat} {v : BitVec 32}
    (h : c + 4 ≤ a ∨ a + 4 ≤ c) : word (setWord b a v) c = word b c :=
  word_congr fun _ _ _ => setWord_outside (by omega)

/-- A C `int` at offset `a`. -/
def int (b : Buf) (a : Nat) : Int := (word b a).toInt

def setInt (b : Buf) (a : Nat) (x : Int) : Buf := setWord b a (BitVec.ofInt 32 x)

theorem int_congr {b c : Buf} {a : Nat} (h : ∀ k, a ≤ k → k < a + 4 → b k = c k) :
    int b a = int c a := by
  unfold int
  rw [word_congr h]

theorem int_setInt {b : Buf} {a : Nat} {x : Int} (low : -2147483648 ≤ x) (high : x ≤ 2147483647) :
    int (setInt b a x) a = x := by
  unfold int setInt
  rw [word_setWord, BitVec.toInt_ofInt]
  exact int32_of_range low high

theorem int_setInt_of_disjoint {b : Buf} {a c : Nat} {x : Int} (h : c + 4 ≤ a ∨ a + 4 ≤ c) :
    int (setInt b a x) c = int b c := by
  unfold int setInt
  rw [word_setWord_of_disjoint h]

end NachOS.Lib
