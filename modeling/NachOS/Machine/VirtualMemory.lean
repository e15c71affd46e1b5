import NachOS.Lib.Cells
import NachOS.Machine.PhysicalMemory

/-!
# Main memory behind a page table (machine/translate.cc:39-251)

`Translate` never leads outside of main memory, whatever the table or the TLB holds, and
an access never reaches over the end of a page. So the bytes that a program sees through
a table without shared frames are one array over the virtual addresses, and `ReadMem` and
`WriteMem` are loads and stores of little-endian numbers on it, on either kind of host.
-/
namespace NachOS.Mips
open NachOS.Lib

section Safety

variable {mmu mmu' : Mmu} {virtAddr : Word} {size i : Nat} {writing : Bool} {p vpn : Nat}

namespace Mmu

/-- The entry for a virtual page: in the table at its number, in the TLB the first that
names it. -/
def Matches (vpn i : Nat) (entry : TranslationEntry) : Mmu → Prop
  | pageTable entries => i = vpn ∧ entries[i]? = some entry
  | tlb entries => entries[i]? = some entry ∧ entry.virtualPage = BitVec.ofNat 32 vpn ∧
      ∀ j < i, ∀ other, entries[j]? = some other →
        ¬(other.valid ∧ other.virtualPage = BitVec.ofNat 32 vpn)

theorem find_matches (found : mmu.find vpn = .ok i) :
    ∃ entry, mmu.entries[i]? = some entry ∧ mmu.Matches vpn i entry ∧ entry.valid = true := by
  cases mmu with
  | pageTable entries =>
    simp only [find] at found
    split at found
    next => cases found
    next entry listed =>
      split at found
      next valid =>
        cases found
        exact ⟨entry, listed, ⟨rfl, listed⟩, valid⟩
      next => cases found
  | tlb entries =>
    simp only [find] at found
    split at found
    next => cases found
    next j listed =>
      cases found
      obtain ⟨bound, names, first⟩ := List.findIdx?_eq_some_iff_getElem.mp listed
      simp only [Bool.and_eq_true, beq_iff_eq] at names first
      have here : entries[i]? = some entries[i] := List.getElem?_eq_getElem bound
      refine ⟨entries[i], here, ⟨here, names.2, ?_⟩, names.1⟩
      intro j before other at_j both
      obtain ⟨_, rfl⟩ := List.getElem?_eq_some_iff.mp at_j
      exact first j before both

theorem entries_set (mmu : Mmu) (i : Nat) (entry : TranslationEntry) :
    (mmu.set i entry).entries = mmu.entries.set i entry := by
  cases mmu <;> rfl

/-- A translation that raises no exception. -/
structure Translated (mmu : Mmu) (virtAddr : Word) (size : Nat) (writing : Bool) (physAddr : Nat)
    (mmu' : Mmu) : Prop where
  inside : physAddr + size ≤ MemorySize
  /-- The entry that was used, and how it is left; every other one is as before. -/
  entry : ∃ i entry, mmu.Matches (virtAddr.toNat / PageSize) i entry ∧
    entry.valid = true ∧ (writing = true → entry.readOnly = false) ∧
    mmu'.entries[i]? = some { entry with use := true, dirty := entry.dirty || writing } ∧
    ∀ j, j ≠ i → mmu'.entries[j]? = mmu.entries[j]?

/-- The final assertion, as a fact about the result. -/
theorem translate_inside (translated : mmu.translate virtAddr size writing = .ok (.ok (p, mmu'))) :
    p + size ≤ MemorySize := by
  unfold translate at translated
  split at translated
  next => cases translated
  next =>
    dsimp only at translated
    split at translated
    next => cases translated
    next =>
      split at translated
      next => cases translated
      next =>
        split at translated
        next => cases translated
        next =>
          split at translated
          next => cases translated
          next =>
            obtain ⟨_, checked, rest⟩ := Exec.bind_eq_ok.mp translated
            cases rest
            exact check_eq_ok.mp checked

theorem translate_translated
    (translated : mmu.translate virtAddr size writing = .ok (.ok (p, mmu'))) :
    mmu.Translated virtAddr size writing p mmu' := by
  obtain ⟨i, entry, maps, _, rfl⟩ := translate_ok translated
  obtain ⟨entry', listed, matched, valid⟩ := find_matches maps.found
  have same : entry' = entry := Option.some.inj (listed.symm.trans maps.listed)
  rw [same] at matched valid
  have bound := find_lt maps.found
  have permitted := maps.permitted
  refine ⟨translate_inside translated, i, entry, matched, valid, ?_, ?_, ?_⟩
  · intro write
    rw [write, Bool.and_true] at permitted
    exact permitted
  · rw [entries_set, List.getElem?_set_self bound]
  · intro j other
    rw [entries_set, List.getElem?_set_ne other.symm]

end Mmu

/-- An access that ends in an exception hands on the memory, and with it the table, as it
was. -/
structure Raised (mmu : Mmu) (virtAddr : Word) (size : Nat) (writing : Bool)
    (which : ExceptionType) : Prop where
  read : writing = false → ∀ m : Memory, m.mmu = mmu →
    m.readMem virtAddr size = .error (.exception which virtAddr m)
  write : writing = true → ∀ (m : Memory) (value : Word), m.mmu = mmu →
    m.writeMem virtAddr size value = .error (.exception which virtAddr m)

theorem raised_of_translate {which : ExceptionType}
    (translated : mmu.translate virtAddr size writing = .ok (.error which)) :
    Raised mmu virtAddr size writing which := by
  constructor
  · rintro rfl m rfl
    unfold Memory.readMem
    rw [translated]
    rfl
  · rintro rfl m value rfl
    unfold Memory.writeMem
    rw [translated]
    rfl

/-- `Translate` with any address and any contents of the page table or the TLB. -/
theorem translate_safe (mmu : Mmu) (virtAddr : Word) (size : Nat)
    (sized : size = 1 ∨ size = 2 ∨ size = 4) (writing : Bool) :
    (∃ which, mmu.translate virtAddr size writing = .ok (.error which) ∧
      Raised mmu virtAddr size writing which) ∨
    (∃ physAddr mmu', mmu.translate virtAddr size writing = .ok (.ok (physAddr, mmu')) ∧
      mmu.Translated virtAddr size writing physAddr mmu') := by
  obtain ⟨r, translated⟩ := mmu.translate_returns virtAddr writing sized
  cases r with
  | error which => exact .inl ⟨which, translated, raised_of_translate translated⟩
  | ok r => exact .inr ⟨r.1, r.2, translated, Mmu.translate_translated translated⟩

/-- A TLB with the last page of the address space in the last frame. -/
def lastPage : Mmu :=
  .tlb [⟨0, 5, true, false, false, false⟩, ⟨0x1ffffff, 127, true, false, false, false⟩]

theorem translate_safe_last : ∃ mmu',
    lastPage.translate 0xfffffffc 4 true = .ok (.ok (MemorySize - 4, mmu')) ∧
      lastPage.Translated 0xfffffffc 4 true (MemorySize - 4) mmu' := by
  obtain ⟨which, raised, -⟩ | ⟨physAddr, mmu', done, translated⟩ :=
    translate_safe lastPage 0xfffffffc 4 (.inr (.inr rfl)) true
  · cases raised
  · have address : physAddr = MemorySize - 4 := by
      cases done
      rfl
    rw [address] at done translated
    exact ⟨mmu', done, translated⟩

end Safety

section Accesses

variable {mmu mmu' : Mmu} {m m' : Memory} {addr value : Word} {size p : Nat} {writing : Bool}

/-- The number that `ReadMem` returns for the bytes from `p` on. -/
def loaded (b : Buf) (p : Nat) : Nat → Word
  | 1 => (b p).signExtend 32
  | 2 => (short b p).setWidth 32
  | _ => word b p

theorem shortToHost_bytes (big : Bool) (x : Word) {k : Nat} (hk : k < 2) :
    (Lib.shortToHost big ((x &&& 0xffff).setWidth 16)).extractLsb'
      (8 * (if big then 1 - k else k)) 8 = x.extractLsb' (8 * k) 8 := by
  rw [hostShortByte_shortToHost big _ hk]
  apply BitVec.eq_of_getLsbD_eq
  intro i hi
  have low : 8 * k + i < 16 := by omega
  have mask : (0xffff : Word).getLsbD (8 * k + i) = true := by
    interval_cases k <;> interval_cases i <;> rfl
  simp only [BitVec.getLsbD_extractLsb', BitVec.getLsbD_setWidth, BitVec.getLsbD_and, hi, low, mask,
    decide_true, Bool.true_and, Bool.and_true]

theorem Memory.short_converted (m : Memory) (p : Nat) :
    m.shortToHost (m.hostShort p) = short m.mainMemory p :=
  shortToHost_hostShort m.hostIsBigEndian m.mainMemory p

theorem Memory.word_converted (m : Memory) (p : Nat) :
    m.wordToHost (m.hostWord p) = word m.mainMemory p :=
  wordToHost_hostWord m.hostIsBigEndian m.mainMemory p

/-- The bytes of a number, in the order in which they are stored. -/
def stored (value : Word) : Buf := fun k => value.extractLsb' (8 * k) 8

theorem Memory.setHostShort_converted (m : Memory) (p : Nat) (value : Word) :
    m.setHostShort p (m.shortToHost ((value &&& 0xffff).setWidth 16)) =
      { m with mainMemory := blit m.mainMemory p (stored value) 2 } := by
  have bytes : ∀ k < 2, (m.shortToHost ((value &&& 0xffff).setWidth 16)).extractLsb'
      (8 * (if m.hostIsBigEndian then 1 - k else k)) 8 = stored value k :=
    fun k hk => shortToHost_bytes m.hostIsBigEndian value hk
  unfold setHostShort
  dsimp only
  rw [blit_congr bytes]

theorem Memory.setHostWord_converted (m : Memory) (p : Nat) (value : Word) :
    m.setHostWord p (m.wordToHost value) =
      { m with mainMemory := blit m.mainMemory p (stored value) 4 } := by
  have bytes : ∀ k < 4, (m.wordToHost value).extractLsb'
      (8 * (if m.hostIsBigEndian then 3 - k else k)) 8 = stored value k :=
    fun k hk => hostByte_wordToHost m.hostIsBigEndian value hk
  unfold setHostWord
  dsimp only
  rw [blit_congr bytes]

theorem update_eq_blit (b : Buf) (p : Nat) (value : Word) :
    Function.update b p (value.setWidth 8) = blit b p (stored value) 1 := by
  funext i
  by_cases here : i = p
  · subst here
    rw [Function.update_self, blit_inside (by omega) (by omega), Nat.sub_self]
    apply BitVec.eq_of_getLsbD_eq
    intro j hj
    simp only [stored, BitVec.getLsbD_setWidth, BitVec.getLsbD_extractLsb', hj, Nat.mul_zero,
      Nat.zero_add]
  · rw [Function.update_of_ne here, blit_outside (by omega)]

/-- What `ReadMem` does when it raises no exception, whatever the host. -/
theorem readMem_ok : m.readMem addr size = .ok (value, m') ↔
    (size = 1 ∨ size = 2 ∨ size = 4) ∧ ∃ p mmu',
      m.mmu.translate addr size false = .ok (.ok (p, mmu')) ∧
      value = loaded m.mainMemory p size ∧ m' = { m with mmu := mmu' } := by
  unfold Memory.readMem
  constructor
  · intro run
    cases translated : m.mmu.translate addr size false with
    | error fault =>
      rw [translated] at run
      cases run
    | ok r =>
      rw [translated] at run
      cases r with
      | error which => cases run
      | ok r =>
        obtain ⟨p, mmu'⟩ := r
        simp only [guarded, Exec.ok_bind, Memory.short_converted, Memory.word_converted] at run
        split at run
        next =>
          cases run
          exact ⟨.inl rfl, p, mmu', rfl, rfl, rfl⟩
        next =>
          cases run
          exact ⟨.inr (.inl rfl), p, mmu', rfl, rfl, rfl⟩
        next =>
          cases run
          exact ⟨.inr (.inr rfl), p, mmu', rfl, rfl, rfl⟩
        next => cases run
  · rintro ⟨sized, p, mmu', translated, rfl, rfl⟩
    rw [translated]
    simp only [guarded, Exec.ok_bind, Memory.short_converted, Memory.word_converted]
    rcases sized with rfl | rfl | rfl
    · rfl
    · rfl
    · rfl

theorem writeMem_ok : m.writeMem addr size value = .ok m' ↔
    (size = 1 ∨ size = 2 ∨ size = 4) ∧ ∃ p mmu',
      m.mmu.translate addr size true = .ok (.ok (p, mmu')) ∧
      m' = { m with mainMemory := blit m.mainMemory p (stored value) size, mmu := mmu' } := by
  unfold Memory.writeMem
  constructor
  · intro run
    cases translated : m.mmu.translate addr size true with
    | error fault =>
      rw [translated] at run
      cases run
    | ok r =>
      rw [translated] at run
      cases r with
      | error which => cases run
      | ok r =>
        obtain ⟨p, mmu'⟩ := r
        simp only [guarded, Exec.ok_bind, Memory.setHostShort_converted,
          Memory.setHostWord_converted, update_eq_blit] at run
        split at run
        next =>
          cases run
          exact ⟨.inl rfl, p, mmu', rfl, rfl⟩
        next =>
          cases run
          exact ⟨.inr (.inl rfl), p, mmu', rfl, rfl⟩
        next =>
          cases run
          exact ⟨.inr (.inr rfl), p, mmu', rfl, rfl⟩
        next => cases run
  · rintro ⟨sized, p, mmu', translated, rfl⟩
    rw [translated]
    simp only [guarded, Exec.ok_bind, Memory.setHostShort_converted, Memory.setHostWord_converted,
      update_eq_blit]
    rcases sized with rfl | rfl | rfl
    · rfl
    · rfl
    · rfl

/-- An access of `size` bytes reaches the bytes that accesses to each of them reach. -/
theorem Mmu.translate_bytes (sized : size = 1 ∨ size = 2 ∨ size = 4)
    (translated : mmu.translate addr size writing = .ok (.ok (p, mmu'))) {k : Nat} (hk : k < size) :
    mmu.physical (addr + BitVec.ofNat 32 k) writing = some (p + k) := by
  have inside : addr.toNat % PageSize + size ≤ PageSize := by
    apply offset_add_size sized
    intro odd
    unfold translate at translated
    rw [if_pos odd] at translated
    cases translated
  obtain ⟨i, entry, maps, rfl, -⟩ := translate_ok translated
  have low := addr.isLt
  have address : (addr + BitVec.ofNat 32 k).toNat = addr.toNat + k := by
    rw [BitVec.toNat_add, BitVec.toNat_ofNat]
    unfold PageSize at inside
    omega
  have page : (addr + BitVec.ofNat 32 k).toNat / PageSize = addr.toNat / PageSize := by
    rw [address]
    unfold PageSize at inside ⊢
    omega
  have offset : (addr + BitVec.ofNat 32 k).toNat % PageSize = addr.toNat % PageSize + k := by
    rw [address]
    unfold PageSize at inside ⊢
    omega
  apply physical_eq_some.mpr
  refine ⟨i, entry, ⟨?_, maps.listed, maps.permitted, maps.frame⟩, ?_⟩
  · rw [page]
    exact maps.found
  · rw [offset]
    omega

namespace Memory

/-- The bytes that a program sees; 0 where there is none to see. -/
def cells (m : Memory) : Cells 32 := fun addr => (m.byteAt addr).getD 0

theorem cells_of_physical {addr : Word} {p : Nat} (mapped : m.mmu.physical addr false = some p) :
    m.cells addr = m.mainMemory p := by
  unfold cells byteAt
  rw [mapped]
  rfl

/-- `ReadMem` on the bytes that a program sees. -/
def readCells (c : Cells 32) (addr : Word) : Nat → Word
  | 1 => (c addr).signExtend 32
  | 2 => (c.short addr).setWidth 32
  | _ => c.word addr

theorem readMem_cells (run : m.readMem addr size = .ok (value, m')) :
    value = readCells m.cells addr size ∧ m'.cells = m.cells ∧ m'.mmu.cleared = m.mmu.cleared := by
  obtain ⟨sized, p, mmu', translated, rfl, rfl⟩ := readMem_ok.mp run
  have same := Mmu.translate_cleared translated
  have byte : ∀ k < size, m.cells (addr + BitVec.ofNat 32 k) = m.mainMemory (p + k) :=
    fun k hk => cells_of_physical (Mmu.translate_bytes sized translated hk)
  have first : m.cells addr = m.mainMemory p := by
    have zero := byte 0 (by omega)
    rwa [BitVec.add_zero, Nat.add_zero] at zero
  refine ⟨?_, ?_, same⟩
  · rcases sized with rfl | rfl | rfl
    · simp only [loaded, readCells, first]
    · simp only [loaded, readCells, Cells.short, short, first, byte 1 (by omega)]
    · simp only [loaded, readCells, Cells.word, word, first, byte 1 (by omega),
        byte 2 (by omega), byte 3 (by omega)]
  · funext a
    unfold cells byteAt
    rw [Mmu.physical_congr same]

theorem writeMem_cells (injective : m.mmu.Injective) (run : m.writeMem addr size value = .ok m') :
    m'.cells = m.cells.write addr size value ∧ m'.mmu.cleared = m.mmu.cleared := by
  obtain ⟨sized, p, mmu', translated, rfl⟩ := writeMem_ok.mp run
  have same := Mmu.translate_cleared translated
  refine ⟨?_, same⟩
  have reached : ∀ k < size, m.mmu.physical (addr + BitVec.ofNat 32 k) true = some (p + k) :=
    fun k hk => Mmu.translate_bytes sized translated hk
  funext a
  by_cases inside : (a - addr).toNat < size
  · -- The byte is one of those that are written.
    rw [Cells.write_inside inside]
    have here : addr + BitVec.ofNat 32 (a - addr).toNat = a := by
      rw [BitVec.ofNat_toNat, BitVec.setWidth_eq, BitVec.add_comm, BitVec.sub_add_cancel]
    have mapped := Mmu.physical_of_writable (reached _ inside)
    rw [here, ← Mmu.physical_congr same] at mapped
    rw [cells_of_physical mapped]
    exact (blit_inside (by omega) (by omega)).trans (congrArg (stored value) (by omega))
  · rw [Cells.write_outside (by omega)]
    unfold cells byteAt
    simp only [Mmu.physical_congr same]
    cases mapped : m.mmu.physical a false with
    | none => rfl
    | some q =>
      -- A byte among those that are written would have a second address.
      have outside : q < p ∨ p + size ≤ q := by
        by_contra between
        have shared := reached (q - p) (by omega)
        rw [show p + (q - p) = q by omega] at shared
        have both := injective _ _ _ shared mapped
        apply inside
        rw [← both, BitVec.add_comm, BitVec.add_sub_cancel, BitVec.toNat_ofNat]
        exact Nat.lt_of_le_of_lt (Nat.mod_le _ _) (by omega)
      simp only [Option.map_some, blit_outside outside]

end Memory

end Accesses

section Runs

variable {entries : List TranslationEntry} {m m' : Memory}

/-- No two virtual pages are mapped to one frame. -/
def DistinctFrames (entries : List TranslationEntry) : Prop :=
  ∀ (i j : Nat) (entry other : TranslationEntry),
    entries[i]? = some entry → entries[j]? = some other →
    entry.valid = true → other.valid = true → entry.physicalPage = other.physicalPage → i = j

theorem Mmu.maps_pageTable {addr : Word} {writing : Bool} {i : Nat} {entry : TranslationEntry}
    (maps : (Mmu.pageTable entries).Maps addr writing i entry) :
    i = addr.toNat / PageSize ∧ entries[i]? = some entry ∧ entry.valid = true := by
  obtain ⟨entry', listed, matched, valid⟩ := find_matches maps.found
  have same : entry' = entry := Option.some.inj (listed.symm.trans maps.listed)
  rw [same] at matched valid
  exact ⟨matched.1, matched.2, valid⟩

/-- Then no byte of main memory has two addresses. -/
theorem DistinctFrames.injective (distinct : DistinctFrames entries) :
    (Mmu.pageTable entries).Injective := by
  intro a b p writable readable
  obtain ⟨i, entry, maps, rfl⟩ := Mmu.physical_eq_some.mp writable
  obtain ⟨j, other, maps', address⟩ := Mmu.physical_eq_some.mp readable
  obtain ⟨page, listed, valid⟩ := Mmu.maps_pageTable maps
  obtain ⟨page', listed', valid'⟩ := Mmu.maps_pageTable maps'
  unfold PageSize at address page page'
  have frame : entry.physicalPage = other.physicalPage := by
    apply BitVec.eq_of_toNat_eq
    omega
  have same := distinct i j entry other listed listed' valid valid' frame
  apply BitVec.eq_of_toNat_eq
  omega

/-- A call of `ReadMem` or `WriteMem`. -/
inductive Access where
  | readMem (addr : Word) (size : Nat)
  | writeMem (addr : Word) (size : Nat) (value : Word)

/-- The calls one after the other, as long as none raises an exception: the values that
were read, and the memory at the end. -/
def Memory.accesses : List Access → Memory → Attempt (List Word × Memory)
  | [], m => .ok ([], m)
  | .readMem addr size :: rest, m => do
    let (value, m) ← m.readMem addr size
    let (values, m) ← m.accesses rest
    .ok (value :: values, m)
  | .writeMem addr size value :: rest, m => do
    let m ← m.writeMem addr size value
    m.accesses rest

/-- The same calls on an array of bytes. -/
def cellsAccesses : List Access → Cells 32 → List Word × Cells 32
  | [], c => ([], c)
  | .readMem addr size :: rest, c =>
    let (values, c') := cellsAccesses rest c
    (Memory.readCells c addr size :: values, c')
  | .writeMem addr size value :: rest, c => cellsAccesses rest (c.write addr size value)

/-- One call on the other kind of host. -/
theorem readMem_host {addr value : Word} {size : Nat} (run : m.readMem addr size = .ok (value, m'))
    (big : Bool) : Memory.readMem { m with hostIsBigEndian := big } addr size =
      .ok (value, { m' with hostIsBigEndian := big }) := by
  obtain ⟨sized, p, mmu', translated, rfl, rfl⟩ := readMem_ok.mp run
  exact readMem_ok.mpr ⟨sized, p, mmu', translated, rfl, rfl⟩

theorem writeMem_host {addr value : Word} {size : Nat}
    (run : m.writeMem addr size value = .ok m') (big : Bool) :
    Memory.writeMem { m with hostIsBigEndian := big } addr size value =
      .ok { m' with hostIsBigEndian := big } := by
  obtain ⟨sized, p, mmu', translated, rfl⟩ := writeMem_ok.mp run
  exact writeMem_ok.mpr ⟨sized, p, mmu', translated, rfl⟩

theorem accesses_cells (calls : List Access) {values : List Word} (injective : m.mmu.Injective)
    (run : m.accesses calls = .ok (values, m')) :
    cellsAccesses calls m.cells = (values, m'.cells) := by
  induction calls generalizing m values with
  | nil =>
    cases run
    rfl
  | cons call rest ih =>
    cases call with
    | readMem addr size =>
      simp only [Memory.accesses] at run
      obtain ⟨⟨value, m₁⟩, first, run⟩ := Exec.bind_eq_ok.mp run
      obtain ⟨⟨more, m₂⟩, others, run⟩ := Exec.bind_eq_ok.mp run
      cases run
      obtain ⟨read, same, table⟩ := Memory.readMem_cells first
      have after := ih (injective.congr table) others
      rw [same] at after
      simp only [cellsAccesses, after, read]
    | writeMem addr size value =>
      simp only [Memory.accesses] at run
      obtain ⟨m₁, first, run⟩ := Exec.bind_eq_ok.mp run
      obtain ⟨written, table⟩ := Memory.writeMem_cells injective first
      have after := ih (injective.congr table) run
      rw [written] at after
      exact after

theorem accesses_host (calls : List Access) {values : List Word}
    (run : m.accesses calls = .ok (values, m')) (big : Bool) :
    Memory.accesses calls { m with hostIsBigEndian := big } =
      .ok (values, { m' with hostIsBigEndian := big }) := by
  induction calls generalizing m values with
  | nil =>
    cases run
    rfl
  | cons call rest ih =>
    cases call with
    | readMem addr size =>
      simp only [Memory.accesses] at run ⊢
      obtain ⟨⟨value, m₁⟩, first, run⟩ := Exec.bind_eq_ok.mp run
      obtain ⟨⟨more, m₂⟩, others, run⟩ := Exec.bind_eq_ok.mp run
      cases run
      rw [readMem_host first big, Exec.ok_bind]
      simp only [ih others, Exec.ok_bind]
    | writeMem addr size value =>
      simp only [Memory.accesses] at run ⊢
      obtain ⟨m₁, first, run⟩ := Exec.bind_eq_ok.mp run
      rw [writeMem_host first big, Exec.ok_bind]
      exact ih run

/-- Every sequence of calls without an exception, over any page table without shared
frames, is that sequence on one little-endian array of bytes, on both kinds of host. -/
theorem memory_is_byte_array (entries : List TranslationEntry) (distinct : DistinctFrames entries)
    (mainMemory : Buf) (big : Bool) (calls : List Access) (values : List Word) (m' : Memory)
    (run : Memory.accesses calls ⟨mainMemory, .pageTable entries, big⟩ = .ok (values, m')) :
    cellsAccesses calls (Memory.cells ⟨mainMemory, .pageTable entries, big⟩) =
      (values, m'.cells) ∧
    ∀ other, Memory.accesses calls ⟨mainMemory, .pageTable entries, other⟩ =
      .ok (values, { m' with hostIsBigEndian := other }) := by
  constructor
  · exact accesses_cells calls (DistinctFrames.injective distinct) run
  · intro other
    exact accesses_host calls run other

/-- Two pages in frames 5 and 3. -/
def twoPages : List TranslationEntry :=
  [⟨0, 5, true, false, false, false⟩, ⟨1, 3, true, false, false, false⟩]

theorem twoPages_distinct : DistinctFrames twoPages := by
  intro i j entry other at_i at_j _ _ same
  have bound : i < 2 := (List.getElem?_eq_some_iff.mp at_i).1
  have bound' : j < 2 := (List.getElem?_eq_some_iff.mp at_j).1
  interval_cases i <;> interval_cases j <;> cases at_i <;> cases at_j <;>
    first | rfl | exact absurd same (by decide)

/-- A word at the end of the first page, over which a short and a byte are written. -/
theorem memory_is_byte_array_overlap :
    let calls := [Access.writeMem 124 4 0x11223344, .writeMem 126 2 0xfedcba98,
      .writeMem 128 1 0x7f, .readMem 124 4, .readMem 126 2, .readMem 127 1, .readMem 128 1]
    let values := [0xba983344, 0x0000ba98, 0xffffffba, 0x0000007f]
    ∃ m', Memory.accesses calls ⟨fun _ => 0, .pageTable twoPages, true⟩ = .ok (values, m') ∧
      cellsAccesses calls (Memory.cells ⟨fun _ => 0, .pageTable twoPages, true⟩) =
        (values, m'.cells) ∧
      ∀ other, Memory.accesses calls ⟨fun _ => 0, .pageTable twoPages, other⟩ =
        .ok (values, { m' with hostIsBigEndian := other }) := by
  intro calls values
  have shown : (match Memory.accesses calls ⟨fun _ => 0, .pageTable twoPages, true⟩ with
      | .ok (read, _) => some read
      | .error _ => none) = some values := by
    decide +kernel
  split at shown
  next read m' run =>
    cases shown
    have array := memory_is_byte_array twoPages twoPages_distinct _ true calls values m' run
    exact ⟨m', run, array⟩
  next => cases shown

end Runs

end NachOS.Mips
