import NachOS.Lib.ByteOrder

/-!
# The NOFF header (userprog/noff.h, coff2noff/noff.h, userprog/addrspace.cc:31-58)

Thirteen words: the magic number and three words for each segment. The converter
writes the header in little-endian order, whatever its host; the loader swaps what it
finds if only the swapped magic number is right. So the header that is loaded is the one
that was written (`readHeader_written`).
-/
namespace NachOS.Userprog
open NachOS.Lib

def NOFFMAGIC : BitVec 32 := 0xbadfad

structure Segment where
  virtualAddr : BitVec 32
  inFileAddr : BitVec 32
  size : BitVec 32
  deriving DecidableEq

structure NoffHeader where
  noffMagic : BitVec 32
  code : Segment
  initData : Segment
  readonlyData : Segment
  uninitData : Segment
  deriving DecidableEq

/-- `sizeof(NoffHeader)`, with `RDATA`. -/
def NoffHeaderSize : Nat := 52

def Segment.swap (big : Bool) (s : Segment) : Segment where
  virtualAddr := wordToHost big s.virtualAddr
  inFileAddr := wordToHost big s.inFileAddr
  size := wordToHost big s.size

/-- `SwapHeader`. -/
def swapHeader (big : Bool) (h : NoffHeader) : NoffHeader where
  noffMagic := wordToHost big h.noffMagic
  code := h.code.swap big
  initData := h.initData.swap big
  readonlyData := h.readonlyData.swap big
  uninitData := h.uninitData.swap big

def Segment.words (s : Segment) : List (BitVec 32) := [s.virtualAddr, s.inFileAddr, s.size]

/-- The words of a header in the order of its fields. -/
def NoffHeader.words (h : NoffHeader) : List (BitVec 32) :=
  h.noffMagic :: (h.code.words ++ h.initData.words ++ h.readonlyData.words ++ h.uninitData.words)

/-- The memory that holds a header. -/
def NoffHeader.bytes (big : Bool) (h : NoffHeader) : Buf := fun i =>
  hostByte big (h.words.getD (i / 4) 0) (i % 4)

/-- Three words from offset `a` on, as a segment. -/
def segmentAt (big : Bool) (b : Buf) (a : Nat) : Segment :=
  ⟨hostWord big b a, hostWord big b (a + 4), hostWord big b (a + 8)⟩

/-- The header that a buffer holds. -/
def headerAt (big : Bool) (b : Buf) : NoffHeader where
  noffMagic := hostWord big b 0
  code := segmentAt big b 4
  initData := segmentAt big b 16
  readonlyData := segmentAt big b 28
  uninitData := segmentAt big b 40

/-- The header that `AddrSpace::Load` works with: swapped if only that makes the magic
number right. -/
def readHeader (big : Bool) (b : Buf) : NoffHeader :=
  let noffH := headerAt big b
  if noffH.noffMagic ≠ NOFFMAGIC ∧ wordToHost big noffH.noffMagic = NOFFMAGIC then
    swapHeader big noffH
  else noffH

theorem words_swapHeader (big : Bool) (h : NoffHeader) :
    (swapHeader big h).words = h.words.map (wordToHost big) := rfl

theorem swapHeader_swapHeader (big : Bool) (h : NoffHeader) :
    swapHeader big (swapHeader big h) = h := by
  simp only [swapHeader, Segment.swap, wordToHost_wordToHost]

theorem words_length (h : NoffHeader) : h.words.length = 13 := rfl

/-- The converted header is in little-endian order. -/
theorem bytes_word (big : Bool) (h : NoffHeader) {b : Buf}
    (same : ∀ i < NoffHeaderSize, b i = (swapHeader big h).bytes big i) {j : Nat} (hj : j < 13) :
    word b (4 * j) = h.words.getD j 0 := by
  apply word_of_bytes
  intro k hk
  have swapped : (swapHeader big h).words.getD j 0 = wordToHost big (h.words.getD j 0) := by
    rw [words_swapHeader, List.getD_eq_getElem?_getD, List.getD_eq_getElem?_getD, List.getElem?_map,
      List.getElem?_eq_getElem (by rw [words_length]; exact hj)]
    rfl
  rw [same (4 * j + k) (by unfold NoffHeaderSize; omega)]
  unfold NoffHeader.bytes
  rw [show (4 * j + k) / 4 = j by omega, show (4 * j + k) % 4 = k by omega, swapped,
    hostByte_wordToHost big _ hk]

/-- On a host of either order, the header that was written is the one that is read. -/
theorem readHeader_written (written loaded : Bool) {h : NoffHeader}
    (magic : h.noffMagic = NOFFMAGIC) {b : Buf}
    (same : ∀ i < NoffHeaderSize, b i = (swapHeader written h).bytes written i) :
    readHeader loaded b = h := by
  have at_ : ∀ j < 13, hostWord loaded b (4 * j) = wordToHost loaded (h.words.getD j 0) := by
    intro j hj
    rw [hostWord_eq, bytes_word written h same hj]
  have found : headerAt loaded b = swapHeader loaded h := by
    unfold headerAt segmentAt swapHeader Segment.swap
    rw [at_ 0 (by decide), at_ 1 (by decide), at_ 2 (by decide), at_ 3 (by decide),
      at_ 4 (by decide), at_ 5 (by decide), at_ 6 (by decide), at_ 7 (by decide),
      at_ 8 (by decide), at_ 9 (by decide), at_ 10 (by decide), at_ 11 (by decide),
      at_ 12 (by decide)]
    rfl
  unfold readHeader
  rw [found]
  cases loaded with
  | false =>
    have right : (swapHeader false h).noffMagic = NOFFMAGIC := magic
    exact if_neg fun wrong => wrong.1 right
  | true =>
    have wrong : (swapHeader true h).noffMagic ≠ NOFFMAGIC := by
      change swapWord h.noffMagic ≠ NOFFMAGIC
      rw [magic]
      decide
    have right : wordToHost true (swapHeader true h).noffMagic = NOFFMAGIC :=
      (wordToHost_wordToHost true h.noffMagic).trans magic
    rw [if_pos ⟨wrong, right⟩, swapHeader_swapHeader]

end NachOS.Userprog
