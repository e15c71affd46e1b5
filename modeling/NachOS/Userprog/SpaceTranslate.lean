import NachOS.Machine.PhysicalMemory
import NachOS.Userprog.AddrSpace

/-!
# The translation of an address space (userprog/addrspace.cc:264-312)

`AddrSpace::Translate` does for the kernel what `Machine::Translate` does for a user
program. It has its own tests: it never looks at `valid`, and its frame number is an
`int`, so that a negative one passes for a small one.
-/
namespace NachOS.Userprog
open NachOS.Lib NachOS.Mips

/-- `AddrSpace::Translate`: an exception, or the physical address and the address space
with the bits of its entry set. -/
def AddrSpace.translate (space : AddrSpace) (vaddr : Mips.Word) (isReadWrite : Bool) :
    Exec (Except ExceptionType (Mips.Word × AddrSpace)) :=
  let vpn := vaddr.toNat / PageSize
  let offset := vaddr.toNat % PageSize
  if space.numPages.toNat ≤ vpn then .ok (.error .addressError)
  else
    match space.pageTable[vpn]? with
    | none => .error .outOfBounds
    | some pte =>
      if isReadWrite && pte.readOnly then .ok (.error .readOnly)
      else
        let pfn := pte.physicalPage
        if NumPhysPages ≤ pfn.toInt then .ok (.error .busError)
        else do
          let pte := { pte with use := true, dirty := pte.dirty || isReadWrite }
          let paddr := pfn * BitVec.ofNat 32 PageSize + BitVec.ofNat 32 offset
          check (paddr.toNat < MemorySize) .assertion
          .ok (.ok (paddr, { space with pageTable := space.pageTable.set vpn pte }))

namespace AddrSpace

/-- `AddrSpace::RestoreState`: the table that the machine works with. -/
def restoreState (space : AddrSpace) : Mmu := .pageTable (space.pageTable.take space.numPages.toNat)

/-- What a translation of the address space amounts to for the machine. -/
def seen : Except ExceptionType (Mips.Word × AddrSpace) → Except ExceptionType (Nat × Mmu)
  | .error exception => .error exception
  | .ok (paddr, space) => .ok (paddr.toNat, space.restoreState)

/-- Both translations give the same exception, or the same address and the same bits. -/
def Agrees (space : AddrSpace) (vaddr : Mips.Word) (isReadWrite : Bool) : Prop :=
  ∃ r, space.translate vaddr isReadWrite = .ok r ∧
    space.restoreState.translate vaddr 1 isReadWrite = .ok (seen r)

/-- The page is outside of the address space, or its entry is valid and either forbids the
access or has a frame number that is not negative. -/
def Translatable (space : AddrSpace) (vaddr : Mips.Word) (isReadWrite : Bool) : Prop :=
  ∀ pte, vaddr.toNat / PageSize < space.numPages.toNat →
    space.pageTable[vaddr.toNat / PageSize]? = some pte →
    pte.valid = true ∧ ((isReadWrite && pte.readOnly) = true ∨ 0 ≤ pte.physicalPage.toInt)

variable {space : AddrSpace} {vaddr : Mips.Word} {isReadWrite : Bool} {pte : TranslationEntry}

/-- The entry as the machine finds it. -/
theorem restoreState_entry (inside : vaddr.toNat / PageSize < space.numPages.toNat) :
    space.restoreState.entries[vaddr.toNat / PageSize]? =
      space.pageTable[vaddr.toNat / PageSize]? :=
  List.getElem?_take_of_lt inside

theorem machine_outside (outside : space.numPages.toNat ≤ vaddr.toNat / PageSize) :
    space.restoreState.translate vaddr 1 isReadWrite = .ok (.error .addressError) := by
  have missing : (space.pageTable.take space.numPages.toNat)[vaddr.toNat / PageSize]? = none := by
    rw [List.getElem?_take, if_neg (Nat.not_lt.mpr outside)]
  unfold Mmu.translate
  simp only [restoreState, Mmu.find, missing]
  rfl

section Inside

variable (inside : vaddr.toNat / PageSize < space.numPages.toNat)
  (listed : space.pageTable[vaddr.toNat / PageSize]? = some pte)

include inside listed

theorem machine_invalid (invalid : pte.valid = false) :
    space.restoreState.translate vaddr 1 isReadWrite = .ok (.error .pageFault) := by
  have found := (restoreState_entry inside).trans listed
  simp only [restoreState, Mmu.entries] at found
  unfold Mmu.translate
  simp only [restoreState, Mmu.find, found, invalid]
  rfl

/-- The tests of the machine on an entry that is valid. -/
theorem machine_valid (isReadWrite : Bool) (valid : pte.valid = true) :
    space.restoreState.translate vaddr 1 isReadWrite =
      if (pte.readOnly && isReadWrite) = true then .ok (.error .readOnly)
      else if NumPhysPages ≤ pte.physicalPage.toNat then .ok (.error .busError)
      else .ok (.ok (pte.physicalPage.toNat * PageSize + vaddr.toNat % PageSize,
        space.restoreState.set (vaddr.toNat / PageSize)
          { pte with use := true, dirty := pte.dirty || isReadWrite })) := by
  have listed := (restoreState_entry inside).trans listed
  have found : space.restoreState.find (vaddr.toNat / PageSize) = .ok (vaddr.toNat / PageSize) := by
    simp only [restoreState, Mmu.entries] at listed
    simp only [restoreState, Mmu.find, listed, valid, if_true]
  by_cases permitted : (pte.readOnly && isReadWrite) = true
  · rw [if_pos permitted]
    unfold Mmu.translate
    simp only [found, listed, permitted]
    rfl
  by_cases frame : NumPhysPages ≤ pte.physicalPage.toNat
  · rw [if_neg permitted, if_pos frame]
    unfold Mmu.translate
    simp only [found, listed]
    rw [if_neg permitted, if_pos frame]
    rfl
  · rw [if_neg permitted, if_neg frame]
    exact Mmu.translate_maps ⟨found, listed, by simpa using permitted, Nat.lt_of_not_le frame⟩

/-- The tests of the address space on the same entry. -/
theorem translate_inside : space.translate vaddr isReadWrite =
    if (isReadWrite && pte.readOnly) = true then .ok (.error .readOnly)
    else if NumPhysPages ≤ pte.physicalPage.toInt then .ok (.error .busError)
    else (do
      let paddr := pte.physicalPage * BitVec.ofNat 32 PageSize +
        BitVec.ofNat 32 (vaddr.toNat % PageSize)
      check (paddr.toNat < MemorySize) .assertion
      .ok (.ok (paddr, { space with
        pageTable := space.pageTable.set (vaddr.toNat / PageSize)
          { pte with use := true, dirty := pte.dirty || isReadWrite } }))) := by
  unfold translate
  simp only [listed]
  rw [if_neg (Nat.not_le.mpr inside)]

/-- With a frame number in range, the address is the one of the machine. -/
theorem translate_frame (permitted : ¬(isReadWrite && pte.readOnly) = true)
    (low : 0 ≤ pte.physicalPage.toInt) (high : pte.physicalPage.toInt < NumPhysPages) :
    ∃ paddr : Mips.Word,
      paddr.toNat = pte.physicalPage.toNat * PageSize + vaddr.toNat % PageSize ∧
      space.translate vaddr isReadWrite = .ok (.ok (paddr, { space with
        pageTable := space.pageTable.set (vaddr.toNat / PageSize)
          { pte with use := true, dirty := pte.dirty || isReadWrite } })) := by
  have offset := Nat.mod_lt vaddr.toNat (show 0 < PageSize by decide)
  have value := BitVec.toInt_eq_toNat_cond pte.physicalPage
  have small : pte.physicalPage.toNat < NumPhysPages := by
    have := pte.physicalPage.isLt
    unfold NumPhysPages at high ⊢
    split at value <;> omega
  have address : (pte.physicalPage * BitVec.ofNat 32 PageSize +
      BitVec.ofNat 32 (vaddr.toNat % PageSize)).toNat =
      pte.physicalPage.toNat * PageSize + vaddr.toNat % PageSize := by
    rw [BitVec.toNat_add, BitVec.toNat_mul, BitVec.toNat_ofNat, BitVec.toNat_ofNat]
    unfold PageSize NumPhysPages at *
    omega
  have memory : (pte.physicalPage * BitVec.ofNat 32 PageSize +
      BitVec.ofNat 32 (vaddr.toNat % PageSize)).toNat < MemorySize := by
    rw [address]
    unfold MemorySize NumPhysPages PageSize at *
    omega
  refine ⟨_, address, ?_⟩
  rw [translate_inside inside listed, if_neg permitted, if_neg (by omega)]
  simp only [check_true memory, Exec.ok_bind]

end Inside

theorem seen_error {r : Except ExceptionType (Mips.Word × AddrSpace)} {which : ExceptionType}
    (same : seen r = .error which) : r = .error which := by
  cases r with
  | error exception =>
    cases same
    rfl
  | ok r => cases same

/-- The address space has no page faults, and no bus error for a small frame number. -/
theorem translate_tests {which : ExceptionType}
    (inside : vaddr.toNat / PageSize < space.numPages.toNat)
    (listed : space.pageTable[vaddr.toNat / PageSize]? = some pte)
    (raised : space.translate vaddr isReadWrite = .ok (.error which)) :
    which ≠ .pageFault ∧ (which = .busError → NumPhysPages ≤ pte.physicalPage.toInt) := by
  rw [translate_inside inside listed] at raised
  split at raised
  next =>
    cases raised
    exact ⟨by decide, fun bus => by cases bus⟩
  next =>
    split at raised
    next frame =>
      cases raised
      exact ⟨by decide, fun _ => frame⟩
    next =>
      obtain ⟨_, _, rest⟩ := Exec.bind_eq_ok.mp raised
      cases rest

/-- The table of the address space after a translation, as the machine has it. -/
theorem restoreState_set (i : Nat) (entry : TranslationEntry) :
    restoreState { space with pageTable := space.pageTable.set i entry } =
      space.restoreState.set i entry := by
  unfold restoreState Mmu.set
  rw [List.take_set]

theorem agrees_valid (inside : vaddr.toNat / PageSize < space.numPages.toNat)
    (listed : space.pageTable[vaddr.toNat / PageSize]? = some pte) (valid : pte.valid = true) :
    space.Agrees vaddr isReadWrite ↔
      (isReadWrite && pte.readOnly) = true ∨ 0 ≤ pte.physicalPage.toInt := by
  have machine := machine_valid inside listed isReadWrite valid
  rw [Bool.and_comm] at machine
  have value := BitVec.toInt_eq_toNat_cond pte.physicalPage
  have := pte.physicalPage.isLt
  by_cases readOnly : (isReadWrite && pte.readOnly) = true
  · rw [if_pos readOnly] at machine
    refine iff_of_true ⟨.error .readOnly, ?_, machine⟩ (.inl readOnly)
    rw [translate_inside inside listed, if_pos readOnly]
  rw [if_neg readOnly] at machine
  by_cases negative : pte.physicalPage.toInt < 0
  · -- As an unsigned number the frame is too big for the machine.
    rw [if_pos (by unfold NumPhysPages; split at value <;> omega)] at machine
    refine iff_of_false ?_ (fun either => either.elim readOnly (by omega))
    rintro ⟨r, translated, same⟩
    rw [machine, Except.ok.injEq] at same
    rw [seen_error same.symm] at translated
    have frame := (translate_tests inside listed translated).2 rfl
    unfold NumPhysPages at frame
    omega
  · refine iff_of_true ?_ (.inr (by omega))
    by_cases high : pte.physicalPage.toInt < NumPhysPages
    · obtain ⟨paddr, address, translated⟩ :=
        translate_frame inside listed readOnly (by omega) high
      rw [if_neg (by unfold NumPhysPages at *; split at value <;> omega), ← address] at machine
      refine ⟨_, translated, ?_⟩
      rw [machine]
      simp only [seen, restoreState_set]
    · rw [if_pos (by unfold NumPhysPages at *; split at value <;> omega)] at machine
      refine ⟨.error .busError, ?_, machine⟩
      rw [translate_inside inside listed, if_neg readOnly, if_pos (by omega)]

/-- On any table, both translations of an address do the same exactly if the entry is one
that both can tell apart from a bad one. -/
theorem translations_agree_iff (space : AddrSpace)
    (table : space.numPages.toNat ≤ space.pageTable.length) (vaddr : Mips.Word)
    (isReadWrite : Bool) :
    space.Agrees vaddr isReadWrite ↔ space.Translatable vaddr isReadWrite := by
  by_cases outside : space.numPages.toNat ≤ vaddr.toNat / PageSize
  · refine iff_of_true ⟨.error .addressError, if_pos outside, machine_outside outside⟩ ?_
    intro pte inside
    omega
  · have inside := Nat.lt_of_not_le outside
    have listed : space.pageTable[vaddr.toNat / PageSize]? =
        some space.pageTable[vaddr.toNat / PageSize] := List.getElem?_eq_getElem (by omega)
    generalize space.pageTable[vaddr.toNat / PageSize] = pte at listed
    have condition : space.Translatable vaddr isReadWrite ↔
        pte.valid = true ∧
          ((isReadWrite && pte.readOnly) = true ∨ 0 ≤ pte.physicalPage.toInt) := by
      constructor
      · intro translatable
        exact translatable pte inside listed
      · intro good other _ same
        rw [listed] at same
        cases same
        exact good
    rw [condition]
    by_cases valid : pte.valid = true
    · rw [agrees_valid inside listed valid]
      exact ⟨fun agrees => ⟨valid, agrees⟩, fun both => both.2⟩
    · refine iff_of_false ?_ (fun both => valid both.1)
      rintro ⟨r, translated, same⟩
      rw [machine_invalid inside listed (Bool.eq_false_iff.mpr valid), Except.ok.injEq] at same
      rw [seen_error same.symm] at translated
      exact (translate_tests inside listed translated).1 rfl

/-- One page in the last frame. -/
theorem translations_agree_iff_last :
    let space : AddrSpace := ⟨[⟨0, 127, true, false, false, false⟩], 1⟩
    space.Translatable 5 true ∧ space.Agrees 5 true := by
  intro space
  have translatable : space.Translatable 5 true := by
    intro pte _ listed
    cases listed
    exact ⟨rfl, .inr (by decide)⟩
  exact ⟨translatable, (translations_agree_iff space (by decide) 5 true).mpr translatable⟩

/-- An entry that is not valid: the machine faults, the address space goes on. -/
theorem invalid_entry_translated :
    let space : AddrSpace := ⟨[⟨0, 0, false, false, false, false⟩], 1⟩
    space.restoreState.translate 0 1 false = .ok (.error .pageFault) ∧
      space.translate 0 false = .ok (.ok (0, ⟨[⟨0, 0, false, false, true, false⟩], 1⟩)) ∧
      ¬space.Agrees 0 false := by
  intro space
  refine ⟨rfl, rfl, ?_⟩
  rintro ⟨r, translated, same⟩
  cases translated
  cases same

end AddrSpace

end NachOS.Userprog
