import NachOS.Lib.Memory
import Mathlib.Tactic.IntervalCases

/-!
# Words in either byte order

A program reads and writes words in the order of its host, and data that travels
between hosts is kept in little-endian order: a word that has just been read, or is
about to be written, is converted with `wordToHost`, which swaps the bytes on a
big-endian host and does nothing on another. Whatever the host, the value after a read
and a conversion is the little-endian one.
-/
namespace NachOS.Lib

/-- The bytes of a word in the other order. -/
def swapWord (x : BitVec 32) : BitVec 32 :=
  (x >>> 24 &&& 0x000000ff) ||| (x >>> 8 &&& 0x0000ff00) ||| (x <<< 8 &&& 0x00ff0000) |||
    (x <<< 24 &&& 0xff000000)

def swapShort (x : BitVec 16) : BitVec 16 := (x <<< 8 &&& 0xff00) ||| (x >>> 8 &&& 0x00ff)

/-- `WordToHost`, with `big` for `HOST_IS_BIG_ENDIAN`. -/
def wordToHost (big : Bool) (x : BitVec 32) : BitVec 32 := if big then swapWord x else x

/-- `ShortToHost`. -/
def shortToHost (big : Bool) (x : BitVec 16) : BitVec 16 := if big then swapShort x else x

/-- A little-endian 16-bit word. -/
def short (b : Buf) (a : Nat) : BitVec 16 := b (a + 1) ++ b a

/-- The `unsigned short` that the host finds at offset `a`. -/
def hostShort (big : Bool) (b : Buf) (a : Nat) : BitVec 16 :=
  if big then b a ++ b (a + 1) else short b a

/-- The `unsigned int` that the host finds at offset `a`. -/
def hostWord (big : Bool) (b : Buf) (a : Nat) : BitVec 32 :=
  if big then b a ++ b (a + 1) ++ b (a + 2) ++ b (a + 3) else word b a

/-- Byte `k` of a word in the memory of the host. -/
def hostByte (big : Bool) (x : BitVec 32) (k : Nat) : Byte :=
  x.extractLsb' (8 * (if big then 3 - k else k)) 8

variable {b : Buf} {a : Nat}

theorem swapWord_getLsbD (x : BitVec 32) {i : Nat} (hi : i < 32) :
    (swapWord x).getLsbD i = x.getLsbD (8 * (3 - i / 8) + i % 8) := by
  unfold swapWord
  interval_cases i <;> simp

theorem swapWord_swapWord (x : BitVec 32) : swapWord (swapWord x) = x := by
  apply BitVec.eq_of_getLsbD_eq
  intro i hi
  rw [swapWord_getLsbD _ hi, swapWord_getLsbD _ (by omega)]
  congr 1
  omega

theorem swapWord_append (b₀ b₁ b₂ b₃ : Byte) :
    swapWord (b₀ ++ b₁ ++ b₂ ++ b₃) = b₃ ++ b₂ ++ b₁ ++ b₀ := by
  apply BitVec.eq_of_getLsbD_eq
  intro i hi
  rw [swapWord_getLsbD _ hi]
  simp only [BitVec.getLsbD_append]
  grind

theorem swapShort_getLsbD (x : BitVec 16) {i : Nat} (hi : i < 16) :
    (swapShort x).getLsbD i = x.getLsbD (8 * (1 - i / 8) + i % 8) := by
  unfold swapShort
  interval_cases i <;> simp

theorem swapShort_append (b₀ b₁ : Byte) : swapShort (b₀ ++ b₁) = b₁ ++ b₀ := by
  apply BitVec.eq_of_getLsbD_eq
  intro i hi
  rw [swapShort_getLsbD _ hi]
  simp only [BitVec.getLsbD_append]
  grind

theorem wordToHost_wordToHost (big : Bool) (x : BitVec 32) :
    wordToHost big (wordToHost big x) = x := by
  cases big with
  | false => rfl
  | true => exact swapWord_swapWord x

/-- What the host finds is the little-endian word, converted. -/
theorem hostWord_eq (big : Bool) (b : Buf) (a : Nat) :
    hostWord big b a = wordToHost big (word b a) := by
  cases big with
  | false => rfl
  | true => exact (swapWord_append _ _ _ _).symm

/-- A word that was read and converted. -/
theorem wordToHost_hostWord (big : Bool) (b : Buf) (a : Nat) :
    wordToHost big (hostWord big b a) = word b a := by
  rw [hostWord_eq, wordToHost_wordToHost]

theorem shortToHost_hostShort (big : Bool) (b : Buf) (a : Nat) :
    shortToHost big (hostShort big b a) = short b a := by
  cases big with
  | false => rfl
  | true => exact swapShort_append _ _

/-- A word that was converted and written. -/
theorem hostByte_wordToHost (big : Bool) (x : BitVec 32) {k : Nat} (hk : k < 4) :
    hostByte big (wordToHost big x) k = x.extractLsb' (8 * k) 8 := by
  cases big with
  | false => rfl
  | true =>
    apply BitVec.eq_of_getLsbD_eq
    intro i hi
    simp only [hostByte, wordToHost, if_true, BitVec.getLsbD_extractLsb']
    rw [swapWord_getLsbD _ (by omega)]
    congr 2
    omega

/-- A short that was converted and written. -/
theorem hostShortByte_shortToHost (big : Bool) (x : BitVec 16) {k : Nat} (hk : k < 2) :
    (shortToHost big x).extractLsb' (8 * (if big then 1 - k else k)) 8 =
      x.extractLsb' (8 * k) 8 := by
  cases big with
  | false => rfl
  | true =>
    apply BitVec.eq_of_getLsbD_eq
    intro i hi
    simp only [shortToHost, if_true, BitVec.getLsbD_extractLsb']
    rw [swapShort_getLsbD _ (by omega)]
    congr 2
    omega

/-- Four bytes in little-endian order make up the word. -/
theorem word_of_bytes {x : BitVec 32} (bytes : ∀ k < 4, b (a + k) = x.extractLsb' (8 * k) 8) :
    word b a = x := by
  have same : word b a = word (setWord b a x) a := by
    apply word_congr
    intro k low high
    obtain ⟨j, rfl⟩ := Nat.exists_eq_add_of_le low
    rw [bytes j (by omega), setWord_at (by omega)]
  rw [same, word_setWord]

end NachOS.Lib
