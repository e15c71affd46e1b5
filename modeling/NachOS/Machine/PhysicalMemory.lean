import NachOS.Machine.Translate

/-!
# Bytes of main memory behind virtual addresses (machine/translate.cc:73-260)

Which byte of `mainMemory` an access reaches does not depend on the `use` and `dirty`
bits, the only part of an entry that an access changes. So a loop over addresses sees
one and the same address space from its first access to its last.
-/
namespace NachOS.Mips
open NachOS.Lib

/-- The entry without the bits that an access sets. -/
def TranslationEntry.cleared (entry : TranslationEntry) : TranslationEntry :=
  { entry with use := false, dirty := false }

namespace Mmu

def cleared : Mmu → Mmu
  | pageTable entries => pageTable (entries.map TranslationEntry.cleared)
  | tlb entries => tlb (entries.map TranslationEntry.cleared)

/-- The byte of main memory that an access to one byte reaches, if it raises no
exception. -/
def physical (mmu : Mmu) (virtAddr : Word) (writing : Bool) : Option Nat :=
  match mmu.translate virtAddr 1 writing with
  | .ok (.ok (physAddr, _)) => some physAddr
  | _ => none

/-- No byte of main memory is reached from two addresses. -/
def Injective (mmu : Mmu) : Prop :=
  ∀ a b p, mmu.physical a true = some p → mmu.physical b false = some p → a = b

variable {mmu mmu' : Mmu} {virtAddr : Word} {size : Nat} {writing : Bool} {p : Nat}

theorem entries_cleared (mmu : Mmu) :
    mmu.cleared.entries = mmu.entries.map TranslationEntry.cleared := by
  cases mmu <;> rfl

theorem find_cleared (mmu : Mmu) (vpn : Nat) : mmu.cleared.find vpn = mmu.find vpn := by
  cases mmu with
  | pageTable entries =>
    simp only [cleared, find, List.getElem?_map]
    cases entries[vpn]? with
    | none => rfl
    | some entry => rfl
  | tlb entries =>
    simp only [cleared, find, List.findIdx?_map]
    rfl

/-- The entry that an access goes through. -/
structure Maps (mmu : Mmu) (virtAddr : Word) (writing : Bool) (i : Nat) (entry : TranslationEntry) :
    Prop where
  found : mmu.find (virtAddr.toNat / PageSize) = .ok i
  listed : mmu.entries[i]? = some entry
  permitted : (entry.readOnly && writing) = false
  frame : entry.physicalPage.toNat < NumPhysPages

/-- What a translation without an exception does. -/
theorem translate_ok (translated : mmu.translate virtAddr size writing = .ok (.ok (p, mmu'))) :
    ∃ i entry, mmu.Maps virtAddr writing i entry ∧
      p = entry.physicalPage.toNat * PageSize + virtAddr.toNat % PageSize ∧
      mmu' = mmu.set i { entry with use := true, dirty := entry.dirty || writing } := by
  unfold translate at translated
  split at translated
  next => cases translated
  next =>
    dsimp only at translated
    split at translated
    next => cases translated
    next i found =>
      split at translated
      next => cases translated
      next entry listed =>
        split at translated
        next => cases translated
        next permitted =>
          split at translated
          next => cases translated
          next frame =>
            obtain ⟨_, _, rest⟩ := Exec.bind_eq_ok.mp translated
            cases rest
            exact ⟨i, entry, ⟨found, listed, by simpa using permitted, by omega⟩, rfl, rfl⟩

/-- Any entry that an access goes through leads to a byte of main memory. -/
theorem translate_maps {i : Nat} {entry : TranslationEntry}
    (maps : mmu.Maps virtAddr writing i entry) : mmu.translate virtAddr 1 writing =
      .ok (.ok (entry.physicalPage.toNat * PageSize + virtAddr.toNat % PageSize,
        mmu.set i { entry with use := true, dirty := entry.dirty || writing })) := by
  have frame := maps.frame
  have small : entry.physicalPage.toNat * PageSize + virtAddr.toNat % PageSize + 1 ≤ MemorySize := by
    have := Nat.mod_lt virtAddr.toNat (show 0 < PageSize by decide)
    unfold MemorySize
    have := Nat.mul_le_mul_right PageSize frame
    rw [Nat.succ_mul] at this
    omega
  have aligned : ¬ ((1 = 4 ∧ virtAddr &&& 3 ≠ 0) ∨ (1 = 2 ∧ virtAddr &&& 1 ≠ 0)) := by omega
  unfold translate
  rw [if_neg aligned]
  simp only [maps.found, maps.listed, maps.permitted]
  rw [if_neg (by decide), if_neg (by omega), check_true small]
  rfl

theorem physical_eq_some : mmu.physical virtAddr writing = some p ↔ ∃ i entry,
    mmu.Maps virtAddr writing i entry ∧
      p = entry.physicalPage.toNat * PageSize + virtAddr.toNat % PageSize := by
  unfold physical
  constructor
  · intro reached
    split at reached
    next physAddr mmu' translated =>
      cases reached
      obtain ⟨i, entry, maps, address, _⟩ := translate_ok translated
      exact ⟨i, entry, maps, address⟩
    next => cases reached
  · rintro ⟨i, entry, maps, rfl⟩
    rw [translate_maps maps]

/-- The bits that an access sets do not matter for where it leads. -/
theorem physical_cleared (mmu : Mmu) (virtAddr : Word) (writing : Bool) :
    mmu.cleared.physical virtAddr writing = mmu.physical virtAddr writing := by
  ext p
  simp only [physical_eq_some]
  constructor
  · rintro ⟨i, entry, maps, rfl⟩
    have listed := maps.listed
    rw [entries_cleared, List.getElem?_map, Option.map_eq_some_iff] at listed
    obtain ⟨entry', listed, rfl⟩ := listed
    exact ⟨i, entry',
      ⟨(mmu.find_cleared _).symm.trans maps.found, listed, maps.permitted, maps.frame⟩,
      rfl⟩
  · rintro ⟨i, entry, maps, rfl⟩
    have listed : mmu.cleared.entries[i]? = some entry.cleared := by
      rw [entries_cleared, List.getElem?_map, maps.listed, Option.map_some]
    exact ⟨i, entry.cleared,
      ⟨(mmu.find_cleared _).trans maps.found, listed, maps.permitted, maps.frame⟩,
      rfl⟩

theorem physical_congr (same : mmu'.cleared = mmu.cleared) (virtAddr : Word) (writing : Bool) :
    mmu'.physical virtAddr writing = mmu.physical virtAddr writing := by
  rw [← physical_cleared mmu', same, physical_cleared]

theorem set_cleared {i : Nat} {entry entry' : TranslationEntry}
    (listed : mmu.entries[i]? = some entry) (same : entry'.cleared = entry.cleared) :
    (mmu.set i entry').cleared = mmu.cleared := by
  have kept : ∀ entries : List TranslationEntry, entries[i]? = some entry →
      (entries.set i entry').map TranslationEntry.cleared =
        entries.map TranslationEntry.cleared := by
    intro entries listed
    obtain ⟨bound, rfl⟩ := List.getElem?_eq_some_iff.mp listed
    rw [List.map_set, same, ← List.getElem_map TranslationEntry.cleared (h := by simpa using bound)]
    exact List.set_getElem_self _
  cases mmu with
  | pageTable entries => exact congrArg pageTable (kept entries listed)
  | tlb entries => exact congrArg tlb (kept entries listed)

/-- An access changes nothing but those bits. -/
theorem translate_cleared (translated : mmu.translate virtAddr size writing = .ok (.ok (p, mmu'))) :
    mmu'.cleared = mmu.cleared := by
  obtain ⟨i, entry, maps, _, rfl⟩ := translate_ok translated
  exact set_cleared maps.listed rfl

/-- What can be written can be read, at the same place. -/
theorem physical_of_writable (reached : mmu.physical virtAddr true = some p) :
    mmu.physical virtAddr false = some p := by
  obtain ⟨i, entry, maps, address⟩ := physical_eq_some.mp reached
  refine physical_eq_some.mpr ⟨i, entry, ⟨maps.found, maps.listed, ?_, maps.frame⟩, address⟩
  exact Bool.and_false _

theorem physical_lt (reached : mmu.physical virtAddr writing = some p) : p < MemorySize := by
  obtain ⟨i, entry, maps, rfl⟩ := physical_eq_some.mp reached
  have offset := Nat.mod_lt virtAddr.toNat (show 0 < PageSize by decide)
  have frame := Nat.mul_le_mul_right PageSize maps.frame
  rw [Nat.succ_mul] at frame
  unfold MemorySize
  omega

theorem Injective.congr (injective : mmu.Injective) (same : mmu'.cleared = mmu.cleared) :
    mmu'.Injective := by
  intro a b p
  rw [physical_congr same, physical_congr same]
  exact injective a b p

end Mmu

namespace Memory

variable {m m' : Memory} {addr value : Word}

/-- The byte that a program finds at an address, if it can read there. -/
def byteAt (m : Memory) (addr : Word) : Option Byte :=
  (m.mmu.physical addr false).map m.mainMemory

/-- `ReadMem` of one byte. -/
theorem readMem_byte (run : m.readMem addr 1 = .ok (value, m')) :
    m'.mainMemory = m.mainMemory ∧ m'.mmu.cleared = m.mmu.cleared := by
  obtain ⟨r, translated⟩ := m.mmu.translate_returns addr false (.inl rfl : (1 : Nat) = 1 ∨ _)
  unfold readMem at run
  rw [translated] at run
  cases r with
  | error which => cases run
  | ok r =>
    cases run
    exact ⟨rfl, Mmu.translate_cleared translated⟩

/-- `WriteMem` of one byte. -/
theorem writeMem_byte (run : m.writeMem addr 1 value = .ok m') :
    ∃ p, m.mmu.physical addr true = some p ∧
      m'.mainMemory = Function.update m.mainMemory p (value.setWidth 8) ∧
      m'.mmu.cleared = m.mmu.cleared := by
  obtain ⟨r, translated⟩ := m.mmu.translate_returns addr true (.inl rfl : (1 : Nat) = 1 ∨ _)
  unfold writeMem at run
  rw [translated] at run
  cases r with
  | error which => cases run
  | ok r =>
    cases run
    refine ⟨r.1, ?_, rfl, Mmu.translate_cleared translated⟩
    unfold Mmu.physical
    rw [translated]

theorem readMem_mapped {p : Nat} (mapped : m.mmu.physical addr false = some p) :
    ∃ value m', m.readMem addr 1 = .ok (value, m') := by
  obtain ⟨i, entry, maps, _⟩ := Mmu.physical_eq_some.mp mapped
  unfold readMem
  rw [Mmu.translate_maps maps]
  exact ⟨_, _, rfl⟩

theorem writeMem_mapped {p : Nat} (mapped : m.mmu.physical addr true = some p) (value : Word) :
    ∃ m', m.writeMem addr 1 value = .ok m' := by
  obtain ⟨i, entry, maps, _⟩ := Mmu.physical_eq_some.mp mapped
  unfold writeMem
  rw [Mmu.translate_maps maps]
  exact ⟨_, rfl⟩

/-- Where no two addresses share a byte, `WriteMem` sets the byte at one address. -/
theorem writeMem_byteAt (injective : m.mmu.Injective) (run : m.writeMem addr 1 value = .ok m')
    (a : Word) : m'.byteAt a = if a = addr then some (value.setWidth 8) else m.byteAt a := by
  obtain ⟨p, reached, written, mmu⟩ := writeMem_byte run
  unfold byteAt
  rw [Mmu.physical_congr mmu, written]
  by_cases here : a = addr
  · rw [if_pos here, here, Mmu.physical_of_writable reached, Option.map_some, Function.update_self]
  · rw [if_neg here]
    cases other : m.mmu.physical a false with
    | none => rfl
    | some q =>
      have apart : q ≠ p := by
        intro same
        rw [same] at other
        exact here (injective addr a p reached other).symm
      rw [Option.map_some, Option.map_some, Function.update_of_ne apart]

end Memory

end NachOS.Mips
