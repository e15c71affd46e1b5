import NachOS.Machine.Arithmetic
import NachOS.Machine.VirtualMemory

/-!
# Unaligned words (machine/mipssim.cc:312-418, 552-668)

A word at any address is moved by two instructions, each of which accesses one aligned
word: `LWL` and `SWL` move the bytes up to their address, `LWR` and `SWR` those from their
address on. Which byte of the register an instruction moves depends on the address alone,
and for the two instructions of a pair these are all four bytes, even where the word lies
in two pages.
-/
namespace NachOS.Mips
open NachOS.Lib

/-- The two instructions of a pair, for a word at address `a`. -/
inductive Part where
  | left
  | right
  deriving DecidableEq

namespace Part

def loadOp : Part → Op
  | left => .lwl
  | right => .lwr

def storeOp : Part → Op
  | left => .swl
  | right => .swr

def loadMerge : Part → Word → Word → Word → Word
  | left => lwlValue
  | right => lwrValue

def storeMerge : Part → Word → Word → Word → Word
  | left => swlValue
  | right => swrValue

def other : Part → Part
  | left => right
  | right => left

/-- The address that the instruction names. -/
def address (a : Word) : Part → Word
  | left => a + 3
  | right => a

/-- Byte `k` of the register is moved. -/
def Covers (a : Word) (k : Nat) : Part → Prop
  | left => 3 ≤ k + (a + 3).toNat % 4
  | right => k + a.toNat % 4 ≤ 3

/-- Where byte `k` of the register is in the aligned word. -/
def position (a : Word) (k : Nat) : Part → Nat
  | left => k + (a + 3).toNat % 4 - 3
  | right => k + a.toNat % 4

end Part

section Merges

variable {byte value merged rt : Word} {k : Nat}

theorem byte_cases (small : byte.toNat < 4) : byte = 0 ∨ byte = 1 ∨ byte = 2 ∨ byte = 3 := by
  simp only [← BitVec.toNat_inj, BitVec.ofNat_eq_ofNat, BitVec.toNat_ofNat]
  omega

/-- All bytes come from the word that is shifted by none. -/
theorem low_merge_none (x y : Word) : x &&& lowBytes 0 ||| y <<< (8 * 0) = y := by
  have mask : lowBytes 0 = 0#32 := rfl
  rw [mask, BitVec.and_zero, BitVec.zero_or]
  exact BitVec.shiftLeft_zero y

theorem high_merge_all (x y : Word) :
    x &&& ~~~lowBytes 4 ||| (y.sshiftRight (32 - 8 * 4) &&& lowBytes 4) = y := by
  have mask : lowBytes 4 = BitVec.allOnes 32 := rfl
  have shift : y.sshiftRight (32 - 8 * 4) = y := BitVec.sshiftRight_zero
  rw [mask, shift, BitVec.and_allOnes, BitVec.not_allOnes, BitVec.and_zero, BitVec.zero_or]

theorem lwlValue_eq (small : byte.toNat < 4) : lwlValue byte value merged =
    merged &&& lowBytes (3 - byte.toNat) ||| value <<< (8 * (3 - byte.toNat)) := by
  rcases byte_cases small with rfl | rfl | rfl | rfl
  · rfl
  · rfl
  · rfl
  · exact (low_merge_none merged value).symm

theorem lwrValue_eq (small : byte.toNat < 4) : lwrValue byte value merged =
    merged &&& ~~~lowBytes (4 - byte.toNat) |||
      (value.sshiftRight (32 - 8 * (4 - byte.toNat)) &&& lowBytes (4 - byte.toNat)) := by
  rcases byte_cases small with rfl | rfl | rfl | rfl
  · exact (high_merge_all merged value).symm
  · rfl
  · rfl
  · rfl

theorem swlValue_eq (small : byte.toNat < 4) : swlValue byte value rt =
    value &&& ~~~lowBytes (byte.toNat + 1) |||
      (rt.sshiftRight (32 - 8 * (byte.toNat + 1)) &&& lowBytes (byte.toNat + 1)) := by
  rcases byte_cases small with rfl | rfl | rfl | rfl
  · rfl
  · rfl
  · rfl
  · exact (high_merge_all value rt).symm

theorem swrValue_eq (small : byte.toNat < 4) : swrValue byte value rt =
    value &&& lowBytes byte.toNat ||| rt <<< (8 * byte.toNat) := by
  rcases byte_cases small with rfl | rfl | rfl | rfl
  · exact (low_merge_none value rt).symm
  · rfl
  · rfl
  · rfl

theorem toNat_and_three (x : Word) : (x &&& 3).toNat = x.toNat % 4 :=
  toNat_and_low x 2 3 rfl

theorem toNat_and_three_lt (x : Word) : (x &&& 3).toNat < 4 := by
  rw [toNat_and_three]
  exact Nat.mod_lt _ (by decide)

/-- A load part moves the bytes that it covers. -/
theorem Part.loadMerge_covered (part : Part) (a value merged : Word) (hk : k < 4)
    (covers : part.Covers a k) :
    (part.loadMerge (part.address a &&& 3) value merged).extractLsb' (8 * k) 8 =
      value.extractLsb' (8 * part.position a k) 8 := by
  have low := toNat_and_three (part.address a)
  have small := toNat_and_three_lt (part.address a)
  cases part with
  | left =>
    simp only [loadMerge, address, Covers, position] at low small covers ⊢
    rw [lwlValue_eq small, byte_low_merge hk, low, if_neg (by omega)]
    congr 2
    omega
  | right =>
    simp only [loadMerge, address, Covers, position] at low small covers ⊢
    rw [lwrValue_eq small, byte_high_merge hk (by omega), low, if_pos (by omega)]
    congr 2
    omega

/-- It leaves the other bytes of the register. -/
theorem Part.loadMerge_other (part : Part) (a value merged : Word) (hk : k < 4)
    (uncovered : ¬part.Covers a k) :
    (part.loadMerge (part.address a &&& 3) value merged).extractLsb' (8 * k) 8 =
      merged.extractLsb' (8 * k) 8 := by
  have low := toNat_and_three (part.address a)
  have small := toNat_and_three_lt (part.address a)
  cases part with
  | left =>
    simp only [loadMerge, address, Covers] at low small uncovered ⊢
    rw [lwlValue_eq small, byte_low_merge hk, low, if_pos (by omega)]
  | right =>
    simp only [loadMerge, address, Covers] at low small uncovered ⊢
    rw [lwrValue_eq small, byte_high_merge hk (by omega), low, if_neg (by omega)]

/-- A store part puts the bytes that it covers in their places of the aligned word. -/
theorem Part.storeMerge_covered (part : Part) (a value rt : Word) (hk : k < 4)
    (covers : part.Covers a k) :
    (part.storeMerge (part.address a &&& 3) value rt).extractLsb' (8 * part.position a k) 8 =
      rt.extractLsb' (8 * k) 8 := by
  have low := toNat_and_three (part.address a)
  have small := toNat_and_three_lt (part.address a)
  cases part with
  | left =>
    simp only [storeMerge, address, Covers, position] at low small covers ⊢
    rw [swlValue_eq small, byte_high_merge (by omega) (by omega), low, if_pos (by omega)]
    congr 2
    omega
  | right =>
    simp only [storeMerge, address, Covers, position] at low small covers ⊢
    rw [swrValue_eq small, byte_low_merge (by omega), low, if_neg (by omega)]
    congr 2
    omega

/-- It leaves the other bytes of the aligned word. -/
theorem Part.storeMerge_other (part : Part) (a value rt : Word) {j : Nat} (hj : j < 4)
    (uncovered : ∀ k < 4, part.Covers a k → part.position a k ≠ j) :
    (part.storeMerge (part.address a &&& 3) value rt).extractLsb' (8 * j) 8 =
      value.extractLsb' (8 * j) 8 := by
  have low := toNat_and_three (part.address a)
  have small := toNat_and_three_lt (part.address a)
  cases part with
  | left =>
    simp only [storeMerge, address, Covers, position] at low small uncovered ⊢
    have beyond : ¬j < (a + 3).toNat % 4 + 1 := by
      intro inside
      exact uncovered (j + 3 - (a + 3).toNat % 4) (by omega) (by omega) (by omega)
    rw [swlValue_eq small, byte_high_merge hj (by omega), low, if_neg beyond]
  | right =>
    simp only [storeMerge, address, Covers, position] at low small uncovered ⊢
    have before : j < a.toNat % 4 := by
      by_contra inside
      exact uncovered (j - a.toNat % 4) (by omega) (by omega) (by omega)
    rw [swrValue_eq small, byte_low_merge hj, low, if_pos before]

end Merges

section Addresses

variable {mmu : Mmu} {a x : Word} {k : Nat} {writing : Bool} {q : Nat}

/-- The address of the aligned word. -/
def aligned (x : Word) : Word := x - (x &&& 3)

theorem toNat_aligned (x : Word) : (aligned x).toNat = x.toNat - x.toNat % 4 := by
  have low := toNat_and_three x
  have := x.isLt
  unfold aligned
  rw [BitVec.toNat_sub, low]
  omega

/-- A byte that is moved, by its place in the aligned word. -/
theorem Part.aligned_add_position (part : Part) (covers : part.Covers a k) :
    aligned (part.address a) + BitVec.ofNat 32 (part.position a k) = a + BitVec.ofNat 32 k := by
  have base := toNat_aligned (part.address a)
  have := a.isLt
  apply BitVec.eq_of_toNat_eq
  rw [BitVec.toNat_add, base]
  cases part with
  | left =>
    simp only [address, Covers, position, BitVec.toNat_add, BitVec.toNat_ofNat,
      BitVec.ofNat_eq_ofNat] at covers ⊢
    omega
  | right =>
    simp only [address, Covers, position, BitVec.toNat_add, BitVec.toNat_ofNat] at covers ⊢
    omega

theorem Part.position_lt (part : Part) (covers : part.Covers a k) (hk : k < 4) :
    part.position a k < 4 := by
  cases part with
  | left =>
    simp only [Covers, position] at covers ⊢
    omega
  | right =>
    simp only [Covers, position] at covers ⊢
    omega

/-- The instructions of a pair cover all bytes between them. -/
theorem Part.covers_or (part : Part) (a : Word) (hk : k < 4) :
    part.Covers a k ∨ part.other.Covers a k := by
  have sum : (a + 3).toNat = (a.toNat + 3) % 2 ^ 32 := BitVec.toNat_add a 3
  cases part with
  | left =>
    simp only [other, Covers, sum]
    omega
  | right =>
    simp only [other, Covers, sum]
    omega

/-- The word around an address that is mapped can be accessed. -/
theorem Mmu.translate_aligned (mapped : mmu.physical x writing = some q) :
    ∃ p mmu', mmu.translate (aligned x) 4 writing = .ok (.ok (p, mmu')) := by
  obtain ⟨i, entry, maps, -⟩ := physical_eq_some.mp mapped
  have base := toNat_aligned x
  have low : (aligned x &&& 3) = 0 := by
    apply BitVec.eq_of_toNat_eq
    rw [toNat_and_three, base]
    exact Nat.sub_mod_eq_zero_of_mod_eq (Nat.mod_mod _ _).symm
  have page : (aligned x).toNat / PageSize = x.toNat / PageSize := by
    unfold PageSize
    rw [base]
    omega
  have sized : 4 = 1 ∨ 4 = 2 ∨ 4 = 4 := .inr (.inr rfl)
  obtain ⟨r, translated⟩ := mmu.translate_returns (aligned x) writing sized
  have frame := maps.frame
  cases r with
  | ok r => exact ⟨r.1, r.2, translated⟩
  | error which =>
    -- The tests that raise an exception are those of the byte at `x`.
    unfold translate at translated
    simp only [low, page, maps.found, maps.listed, maps.permitted] at translated
    rw [if_neg (by simp), if_neg (by decide), if_neg (by omega)] at translated
    obtain ⟨_, _, rest⟩ := Exec.bind_eq_ok.mp translated
    cases rest

/-- Where it can be written, it can be read before that, at the same place. -/
theorem Mmu.translate_aligned_twice (mapped : mmu.physical x true = some q) :
    ∃ p mmu₁ mmu₂, mmu.translate (aligned x) 4 false = .ok (.ok (p, mmu₁)) ∧
      mmu₁.translate (aligned x) 4 true = .ok (.ok (p, mmu₂)) ∧ mmu₂.cleared = mmu.cleared ∧
      ∀ k < 4, mmu.physical (aligned x + BitVec.ofNat 32 k) true = some (p + k) := by
  obtain ⟨p, mmu₁, reads⟩ := translate_aligned (physical_of_writable mapped)
  have same := translate_cleared reads
  rw [← physical_congr same] at mapped
  obtain ⟨p', mmu₂, writes⟩ := translate_aligned mapped
  have places : ∀ k < 4, mmu.physical (aligned x + BitVec.ofNat 32 k) true = some (p' + k) := by
    intro k hk
    rw [← physical_congr same]
    exact translate_bytes (.inr (.inr rfl)) writes hk
  have here : p' + 0 = p + 0 := by
    have readable := translate_bytes (.inr (.inr rfl)) reads (show 0 < 4 by omega)
    rw [physical_of_writable (places 0 (by omega))] at readable
    exact Option.some.inj readable
  rw [Nat.add_zero, Nat.add_zero] at here
  rw [here] at writes places
  exact ⟨p, mmu₁, mmu₂, reads, writes, (translate_cleared writes).trans same, places⟩

/-- Bytes of one word have different places in main memory, even in shared frames. -/
theorem Mmu.physical_apart {j : Nat} {p : Nat} (hk : k < 4) (hj : j < 4)
    (first : mmu.physical (a + BitVec.ofNat 32 k) writing = some p)
    (second : mmu.physical (a + BitVec.ofNat 32 j) writing = some p) : k = j := by
  obtain ⟨i, entry, _, address⟩ := physical_eq_some.mp first
  obtain ⟨i', entry', _, address'⟩ := physical_eq_some.mp second
  have := a.isLt
  rw [BitVec.toNat_add, BitVec.toNat_ofNat] at address address'
  unfold PageSize at address address'
  omega

end Addresses

section Steps

variable {part : Part} {instr : Instruction} {v : Operands} {m m' memory : Memory} {a : Word}
variable {s s' : State}

theorem Part.execute_load (coded : instr.opCode = part.loadOp) (v : Operands) (m : Memory) :
    execute instr v m = loadPart instr v m part.loadMerge := by
  unfold execute
  cases part with
  | left => simp only [coded, loadOp, loadMerge]
  | right => simp only [coded, loadOp, loadMerge]

theorem Part.execute_store (coded : instr.opCode = part.storeOp) (v : Operands) (m : Memory) :
    execute instr v m = storePart instr v m part.storeMerge := by
  unfold execute
  cases part with
  | left => simp only [coded, storeOp, storeMerge]
  | right => simp only [coded, storeOp, storeMerge]

/-- The register before and after a load part, with these bytes in memory. -/
structure Part.Loads (part : Part) (a : Word) (c : Cells 32) (before after : Word) : Prop where
  covered : ∀ k < 4, part.Covers a k → after.extractLsb' (8 * k) 8 = c (a + BitVec.ofNat 32 k)
  other : ∀ k < 4, ¬part.Covers a k → after.extractLsb' (8 * k) 8 = before.extractLsb' (8 * k) 8

/-- Main memory before and after a store part. -/
structure Part.Stores (part : Part) (a rt : Word) (m m' : Memory) : Prop where
  covered : ∀ k < 4, part.Covers a k → ∀ q,
    m.mmu.physical (a + BitVec.ofNat 32 k) true = some q →
      m'.mainMemory q = rt.extractLsb' (8 * k) 8
  other : ∀ q, (∀ k < 4, part.Covers a k →
    m.mmu.physical (a + BitVec.ofNat 32 k) true ≠ some q) → m'.mainMemory q = m.mainMemory q

theorem Part.loadPart_ok (address : v.rs + instr.extra = part.address a)
    (mapped : ∃ q, m.mmu.physical (part.address a) false = some q) :
    ∃ value mmu, loadPart instr v m part.loadMerge =
        .ok ((Effect.plain v { m with mmu }).delayed instr.rt value { m with mmu }) ∧
      mmu.cleared = m.mmu.cleared ∧ part.Loads a m.cells v.merged value := by
  obtain ⟨q, mapped⟩ := mapped
  obtain ⟨p, mmu, translated⟩ := Mmu.translate_aligned mapped
  have read : m.readMem (aligned (part.address a)) 4 =
      .ok (word m.mainMemory p, { m with mmu }) :=
    readMem_ok.mpr ⟨.inr (.inr rfl), p, mmu, translated, rfl, rfl⟩
  have value := (Memory.readMem_cells read).1
  refine ⟨part.loadMerge (part.address a &&& 3) (word m.mainMemory p) v.merged, mmu, ?_,
    Mmu.translate_cleared translated, ?_, ?_⟩
  · unfold aligned at read
    unfold loadPart
    simp only [address, read, Exec.ok_bind]
  · intro k hk covers
    rw [part.loadMerge_covered a _ _ hk covers, value]
    simp only [Memory.readCells]
    rw [Cells.word_byte _ _ (part.position_lt covers hk), part.aligned_add_position covers]
  · intro k hk uncovered
    exact part.loadMerge_other a _ _ hk uncovered

theorem Part.storePart_ok (address : v.rs + instr.extra = part.address a)
    (mapped : ∃ q, m.mmu.physical (part.address a) true = some q) :
    ∃ m', storePart instr v m part.storeMerge = .ok (Effect.plain v m') ∧
      m'.mmu.cleared = m.mmu.cleared ∧ part.Stores a v.rt m m' := by
  obtain ⟨q, mapped⟩ := mapped
  obtain ⟨p, mmu, mmu', reads, writes, same, place⟩ := Mmu.translate_aligned_twice mapped
  have read : m.readMem (aligned (part.address a)) 4 =
      .ok (word m.mainMemory p, { m with mmu }) :=
    readMem_ok.mpr ⟨.inr (.inr rfl), p, mmu, reads, rfl, rfl⟩
  generalize merged : part.storeMerge (part.address a &&& 3) (word m.mainMemory p) v.rt = value
  have write : Memory.writeMem { m with mmu } (aligned (part.address a)) 4 value =
      .ok { m with mainMemory := blit m.mainMemory p (stored value) 4, mmu := mmu' } :=
    writeMem_ok.mpr ⟨.inr (.inr rfl), p, mmu', writes, rfl⟩
  refine ⟨{ m with mainMemory := blit m.mainMemory p (stored value) 4, mmu := mmu' }, ?_, same,
    ?_, ?_⟩
  · unfold aligned at read write
    unfold storePart
    simp only [address, read, Exec.ok_bind, merged, write]
  · intro k hk covers q reached
    have inside := part.position_lt covers hk
    rw [← part.aligned_add_position covers, place _ inside] at reached
    cases reached
    dsimp only
    rw [blit_inside (by omega) (by omega), Nat.add_sub_cancel_left, ← merged]
    exact part.storeMerge_covered a _ _ hk covers
  · intro q elsewhere
    dsimp only
    by_cases inside : p ≤ q ∧ q < p + 4
    · obtain ⟨j, rfl⟩ := Nat.exists_eq_add_of_le inside.1
      rw [blit_inside inside.1 inside.2, Nat.add_sub_cancel_left, ← merged]
      have uncovered : ∀ k < 4, part.Covers a k → part.position a k ≠ j := by
        intro k hk covers at_j
        apply elsewhere k hk covers
        rw [← part.aligned_add_position covers, at_j]
        exact place j (by omega)
      exact (part.storeMerge_other a _ _ (by omega) uncovered).trans
        (word_byte m.mainMemory p (by omega))
    · exact blit_outside (by omega)

/-- The fetch changes nothing but the bits of the entry that it goes through. -/
theorem State.fetch_memory (fetched : s.fetch = .ok (instr, memory)) :
    memory.cells = s.memory.cells ∧ memory.mainMemory = s.memory.mainMemory ∧
      memory.mmu.cleared = s.memory.mmu.cleared := by
  unfold State.fetch at fetched
  obtain ⟨⟨raw, memory'⟩, read, rest⟩ := Exec.bind_eq_ok.mp fetched
  obtain ⟨_, _, rest⟩ := Exec.bind_eq_ok.mp rest
  cases rest
  obtain ⟨-, cells, table⟩ := Memory.readMem_cells read
  obtain ⟨-, p, mmu, -, -, rfl⟩ := readMem_ok.mp read
  exact ⟨cells, rfl, table⟩

/-- An instruction that writes no register of its own. -/
structure State.Moves (s s' : State) : Prop where
  done : s.oneInstruction = .ok (.next s')
  boundary : s'.registers.AtBoundary
  general : ∀ n < 32, s'.registers.get n = if n = 0 then 0
    else if n = (s.registers LoadReg).toNat then s.registers LoadValueReg else s.registers.get n
  table : s'.memory.mmu.cleared = s.memory.mmu.cleared

theorem State.moves_of_execute {e : Effect} (boundary : s.registers.AtBoundary)
    (fetched : s.fetch = .ok (instr, memory))
    (executed : execute instr (s.values instr) memory = .ok e) (own : e.write = none)
    (table : e.memory.mmu.cleared = s.memory.mmu.cleared) :
    s.Moves ⟨s.registers.committed e, e.memory⟩ := by
  have sound := execute_sound (v := s.values instr) (m := memory) (State.fetch_decoded fetched)
  rw [executed] at sound
  refine ⟨State.oneInstruction_done boundary.slot fetched executed,
    Registers.committed_atBoundary sound, ?_, table⟩
  intro n general
  rw [Registers.committed_get general, own]
  rfl

/-- With no load pending, the general registers stay as they are. -/
theorem State.Moves.kept (moves : s.Moves s') (boundary : s.registers.AtBoundary)
    (idle : s.registers LoadReg = 0) {n : Nat} (general : n < 32) :
    s'.registers.get n = s.registers.get n := by
  rw [moves.general n general, idle]
  by_cases zero : n = 0
  · rw [if_pos zero, zero, Registers.get_eq (by omega)]
    exact boundary.zero.symm
  · rw [if_neg zero, if_neg (show n ≠ (0 : Word).toNat from zero)]

theorem Part.load_step (boundary : s.registers.AtBoundary)
    (fetched : s.fetch = .ok (instr, memory)) (coded : instr.opCode = part.loadOp)
    (address : s.registers.get instr.rs + instr.extra = part.address a)
    (mapped : ∃ q, s.memory.mmu.physical (part.address a) false = some q) :
    ∃ s', s.Moves s' ∧ s'.registers LoadReg = BitVec.ofNat 32 instr.rt ∧
      s'.memory.mainMemory = s.memory.mainMemory ∧
      part.Loads a s.memory.cells (s.values instr).merged (s'.registers LoadValueReg) := by
  obtain ⟨cells, mainMemory, table⟩ := State.fetch_memory fetched
  obtain ⟨q, mapped⟩ := mapped
  rw [← Mmu.physical_congr table] at mapped
  have operand : (s.values instr).rs + instr.extra = part.address a := address
  obtain ⟨value, mmu, done, same, loads⟩ := part.loadPart_ok operand ⟨q, mapped⟩
  rw [cells] at loads
  rw [← Part.execute_load coded] at done
  refine ⟨_, State.moves_of_execute boundary fetched done rfl (same.trans table), rfl, ?_, loads⟩
  exact mainMemory

theorem Part.store_step (boundary : s.registers.AtBoundary)
    (fetched : s.fetch = .ok (instr, memory)) (coded : instr.opCode = part.storeOp)
    (address : s.registers.get instr.rs + instr.extra = part.address a)
    (mapped : ∃ q, s.memory.mmu.physical (part.address a) true = some q) :
    ∃ s', s.Moves s' ∧ s'.registers LoadReg = 0 ∧
      part.Stores a (s.registers.get instr.rt) s.memory s'.memory := by
  obtain ⟨-, mainMemory, table⟩ := State.fetch_memory fetched
  obtain ⟨q, mapped⟩ := mapped
  rw [← Mmu.physical_congr table] at mapped
  have operand : (s.values instr).rs + instr.extra = part.address a := address
  obtain ⟨m', done, same, stores⟩ := part.storePart_ok operand ⟨q, mapped⟩
  rw [← Part.execute_store coded] at done
  refine ⟨_, State.moves_of_execute boundary fetched done rfl (same.trans table), rfl, ?_, ?_⟩
  · intro k hk covers q reached
    rw [← Mmu.physical_congr table] at reached
    exact stores.covered k hk covers q reached
  · intro q elsewhere
    rw [← mainMemory]
    apply stores.other
    intro k hk covers
    rw [Mmu.physical_congr table]
    exact elsewhere k hk covers

/-- The addresses that a pair names are those of its last and of its first byte. -/
theorem Part.address_mapped {mmu : Mmu} {writing : Bool} (part : Part)
    (mapped : ∀ k < 4, ∃ p, mmu.physical (a + BitVec.ofNat 32 k) writing = some p) :
    ∃ q, mmu.physical (part.address a) writing = some q := by
  cases part with
  | left => exact mapped 3 (by omega)
  | right =>
    have first := mapped 0 (by omega)
    rwa [BitVec.add_zero] at first

end Steps

section Pairs

variable {s : State} {a : Word} {part : Part} {first second : Instruction} {memory : Memory}

/-- Two instructions at the program counter of `s`, for one register and for the word at
`a`; no load is pending. -/
structure State.Pair (s : State) (a : Word) (part : Part) (first second : Instruction) : Prop where
  boundary : s.registers.AtBoundary
  idle : s.registers LoadReg = 0
  mapped : ∀ k < 4, ∃ p, s.memory.mmu.physical (a + BitVec.ofNat 32 k) true = some p
  fetched : ∃ memory, s.fetch = .ok (first, memory)
  rt : second.rt = first.rt ∧ first.rt ≠ 0
  firstAddress : s.registers.get first.rs + first.extra = part.address a
  secondAddress : s.registers.get second.rs + second.extra = part.other.address a

/-- What a pair of loads leaves: once the load is completed, the register has the word, and
main memory is as before. -/
def LoadedPair (s s' : State) (a : Word) (rt : Nat) : Prop :=
  (∃ r, s'.registers.delayedLoad 0 0 = .ok r ∧ r.get rt = s.memory.cells.word a) ∧
    s'.memory.mainMemory = s.memory.mainMemory

/-- What a pair of stores leaves: the bytes of the register in the bytes from `a` on, and
every other byte of main memory as before. -/
def StoredPair (s s' : State) (a : Word) (rt : Nat) : Prop :=
  (∀ k < 4, ∀ q, s.memory.mmu.physical (a + BitVec.ofNat 32 k) true = some q →
    s'.memory.mainMemory q = (s.registers.get rt).extractLsb' (8 * k) 8) ∧
  ∀ q, (∀ k < 4, s.memory.mmu.physical (a + BitVec.ofNat 32 k) true ≠ some q) →
    s'.memory.mainMemory q = s.memory.mainMemory q

/-- `first` and `second` are executed back to back; the second is fetched from the memory
that the first leaves. -/
def State.Executes (s : State) (second : Instruction) (result : State → Prop) : Prop :=
  ∃ s₁, s.oneInstruction = .ok (.next s₁) ∧
    ∀ memory, s₁.fetch = .ok (second, memory) →
      ∃ s₂, s₁.oneInstruction = .ok (.next s₂) ∧ result s₂

theorem State.Pair.rt_lt (pair : s.Pair a part first second) : first.rt < 32 := by
  obtain ⟨memory, fetched⟩ := pair.fetched
  exact (State.fetch_decoded fetched).rt

/-- The second instruction finds its address as the first has found it. -/
theorem State.Pair.second_ready {s₁ : State} (pair : s.Pair a part first second)
    (moves : s.Moves s₁) (fetched : s₁.fetch = .ok (second, memory)) :
    s₁.registers.get second.rs + second.extra = part.other.address a ∧
      ∃ q, s₁.memory.mmu.physical (part.other.address a) true = some q := by
  constructor
  · rw [moves.kept pair.boundary pair.idle (State.fetch_decoded fetched).rs]
    exact pair.secondAddress
  · rw [Mmu.physical_congr moves.table]
    exact part.other.address_mapped pair.mapped

theorem loads_pair (pair : s.Pair a part first second) (coded : first.opCode = part.loadOp)
    (coded' : second.opCode = part.other.loadOp) :
    s.Executes second (fun s₂ => LoadedPair s s₂ a first.rt) := by
  have target := pair.rt_lt
  obtain ⟨memory, fetched⟩ := pair.fetched
  obtain ⟨q, writable⟩ := part.address_mapped pair.mapped
  obtain ⟨s₁, moves, slot, mainMemory, loads⟩ := Part.load_step pair.boundary fetched coded
    pair.firstAddress ⟨q, Mmu.physical_of_writable writable⟩
  refine ⟨s₁, moves.done, fun memory' fetched' => ?_⟩
  have cells : s₁.memory.cells = s.memory.cells := by
    funext x
    unfold Memory.cells Memory.byteAt
    rw [Mmu.physical_congr moves.table, mainMemory]
  obtain ⟨address, q', writable'⟩ := pair.second_ready moves fetched'
  obtain ⟨s₂, moves', slot', mainMemory', loads'⟩ := Part.load_step moves.boundary fetched' coded'
    address ⟨q', Mmu.physical_of_writable writable'⟩
  have number : (BitVec.ofNat 32 first.rt).toNat = first.rt := by
    rw [BitVec.toNat_ofNat]
    omega
  -- The second part merges into the value that the first has left in the slot.
  have merged : (s₁.values second).merged = s₁.registers LoadValueReg := by
    simp only [State.values, slot, pair.rt.1]
    exact if_pos number
  have word : s₂.registers LoadValueReg = s.memory.cells.word a := by
    apply eq_of_bytes
    intro k hk
    rw [Cells.word_byte _ _ hk]
    by_cases covers : part.other.Covers a k
    · rw [loads'.covered k hk covers, cells]
    · rw [loads'.other k hk covers, merged]
      exact loads.covered k hk ((part.covers_or a hk).resolve_right covers)
  refine ⟨s₂, moves'.done, ⟨_, Registers.delayedLoad_eq moves'.boundary.slot 0 0, ?_⟩,
    mainMemory'.trans mainMemory⟩
  rw [Registers.get_eq (by omega)]
  unfold Registers.loaded
  rw [if_neg (fun same => pair.rt.2 (congrArg Fin.val same)),
    if_neg (general_ne_special target (by decide)), if_neg (general_ne_special target (by decide)),
    if_pos (by rw [slot', pair.rt.1, number]), word]

theorem stores_pair (pair : s.Pair a part first second) (coded : first.opCode = part.storeOp)
    (coded' : second.opCode = part.other.storeOp) :
    s.Executes second (fun s₂ => StoredPair s s₂ a first.rt) := by
  have target := pair.rt_lt
  obtain ⟨memory, fetched⟩ := pair.fetched
  obtain ⟨s₁, moves, slot, stores⟩ := Part.store_step pair.boundary fetched coded
    pair.firstAddress (part.address_mapped pair.mapped)
  refine ⟨s₁, moves.done, fun memory' fetched' => ?_⟩
  obtain ⟨address, writable'⟩ := pair.second_ready moves fetched'
  obtain ⟨s₂, moves', slot', stores'⟩ := Part.store_step moves.boundary fetched' coded' address
    writable'
  have register : s₁.registers.get second.rt = s.registers.get first.rt := by
    rw [pair.rt.1, moves.kept pair.boundary pair.idle target]
  refine ⟨s₂, moves'.done, ?_, ?_⟩
  · intro k hk q reached
    have reached' := reached
    rw [← Mmu.physical_congr moves.table] at reached'
    by_cases covers : part.other.Covers a k
    · rw [stores'.covered k hk covers q reached', register]
    · -- The first part has stored this byte, and the second stores others.
      have apart : ∀ j < 4, part.other.Covers a j →
          s₁.memory.mmu.physical (a + BitVec.ofNat 32 j) true ≠ some q := by
        intro j hj covers' same
        rw [Mmu.physical_apart hk hj reached' same] at covers
        exact covers covers'
      rw [stores'.other q apart]
      exact stores.covered k hk ((part.covers_or a hk).resolve_right covers) q reached
  · intro q elsewhere
    have untouched : s₂.memory.mainMemory q = s₁.memory.mainMemory q := by
      apply stores'.other
      intro k hk _
      rw [Mmu.physical_congr moves.table]
      exact elsewhere k hk
    rw [untouched]
    exact stores.other q fun k hk _ => elsewhere k hk

/-- Every pair of parts, in either order, in any state and for any address, over any page
table or TLB. -/
theorem unaligned_pairs (s : State) (a : Word) (part : Part) (first second : Instruction)
    (pair : s.Pair a part first second) :
    (first.opCode = part.loadOp → second.opCode = part.other.loadOp →
      s.Executes second (fun s₂ => LoadedPair s s₂ a first.rt)) ∧
    (first.opCode = part.storeOp → second.opCode = part.other.storeOp →
      s.Executes second (fun s₂ => StoredPair s s₂ a first.rt)) := by
  constructor
  · intro coded coded'
    exact loads_pair pair coded coded'
  · intro coded coded'
    exact stores_pair pair coded coded'

/-- `LWL r1, 129(r0)` and `LWR r1, 126(r0)`, with pages 0 and 1 in frames 0 and 3. -/
def straddling : State where
  registers := initRegisters 2
  memory :=
    { programMemory [] with
      mainMemory := blit (fun i => BitVec.ofNat 8 (i / 2)) 0
        (programMemory [0x88010081, 0x9801007e]).mainMemory 8
      mmu := .pageTable [⟨0, 0, true, false, false, false⟩, ⟨1, 3, true, false, false, false⟩] }

theorem straddling_pair :
    straddling.Pair 126 .left ⟨.lwl, 0, 1, 0, 129⟩ ⟨.lwr, 0, 1, 0, 126⟩ where
  boundary := initRegisters_atBoundary 2
  idle := rfl
  mapped := by
    intro k hk
    interval_cases k
    · exact ⟨126, rfl⟩
    · exact ⟨127, rfl⟩
    · exact ⟨384, rfl⟩
    · exact ⟨385, rfl⟩
  fetched := ⟨_, rfl⟩
  rt := ⟨rfl, by decide⟩
  firstAddress := rfl
  secondAddress := rfl

theorem unaligned_pairs_straddling :
    straddling.memory.cells.word 126 = 0xc0c03f3f ∧
    straddling.Executes ⟨.lwr, 0, 1, 0, 126⟩ (fun s₂ => LoadedPair straddling s₂ 126 1) ∧
    ∃ s₁ s₂, straddling.oneInstruction = .ok (.next s₁) ∧ s₁.oneInstruction = .ok (.next s₂) ∧
      LoadedPair straddling s₂ 126 1 := by
  have executes := (unaligned_pairs straddling 126 .left _ _ straddling_pair).1 rfl rfl
  refine ⟨by decide +kernel, executes, ?_⟩
  obtain ⟨s₁, done, rest⟩ := executes
  cases done
  obtain ⟨s₂, done', loaded⟩ := rest _ rfl
  exact ⟨_, s₂, rfl, done', loaded⟩

end Pairs

end NachOS.Mips
