import NachOS.Lib.Memory

/-!
# Address translation and memory access (machine/translate.cc, machine/machine.h)

User memory is reached through a page table or through a TLB, never both. An
access either ends in an exception, which transfers control to the kernel, or
reads or writes `mainMemory` at the translated address and sets the `use` and
`dirty` bits of the entry. Halfwords and words are accessed as the host does it
and converted to the little-endian order of the simulated machine.
-/
namespace NachOS.Mips
open NachOS.Lib

abbrev Word := BitVec 32

def PageSize : Nat := 128

def NumPhysPages : Nat := 128

def MemorySize : Nat := NumPhysPages * PageSize

inductive ExceptionType where
  | syscall
  | pageFault
  | readOnly
  | busError
  | addressError
  | overflow
  | illegalInstr
  deriving DecidableEq

structure TranslationEntry where
  virtualPage : CInt
  physicalPage : CInt
  valid : Bool
  readOnly : Bool
  use : Bool
  dirty : Bool
  deriving DecidableEq

/-- The translation hardware; `pageTableSize` is the length of the table. -/
inductive Mmu where
  | pageTable (entries : List TranslationEntry)
  | tlb (entries : List TranslationEntry)
  deriving DecidableEq

namespace Mmu

def entries : Mmu → List TranslationEntry
  | pageTable entries => entries
  | tlb entries => entries

/-- Store an entry back. -/
def set : Mmu → Nat → TranslationEntry → Mmu
  | pageTable entries, i, entry => pageTable (entries.set i entry)
  | tlb entries, i, entry => tlb (entries.set i entry)

/-- The index of the entry for a virtual page. -/
def find (vpn : Nat) : Mmu → Except ExceptionType Nat
  | pageTable entries =>
    match entries[vpn]? with
    | none => .error .addressError
    | some entry => if entry.valid then .ok vpn else .error .pageFault
  | tlb entries =>
    match entries.findIdx? (fun entry => entry.valid && entry.virtualPage == BitVec.ofNat 32 vpn) with
    | none => .error .pageFault
    | some i => .ok i

/-- `Machine::Translate`: an exception, or the physical address and the table
with its bits set. -/
def translate (mmu : Mmu) (virtAddr : Word) (size : Nat) (writing : Bool) :
    Exec (Except ExceptionType (Nat × Mmu)) :=
  if (size = 4 ∧ virtAddr &&& 3 ≠ 0) ∨ (size = 2 ∧ virtAddr &&& 1 ≠ 0) then
    .ok (.error .addressError)
  else
    let vpn := virtAddr.toNat / PageSize
    let offset := virtAddr.toNat % PageSize
    match mmu.find vpn with
    | .error exception => .ok (.error exception)
    | .ok i =>
      match mmu.entries[i]? with
      | none => .error .outOfBounds
      | some entry =>
        if entry.readOnly && writing then .ok (.error .readOnly)
        else
          let pageFrame := entry.physicalPage.toNat
          if NumPhysPages ≤ pageFrame then .ok (.error .busError)
          else do
            let entry := { entry with use := true, dirty := entry.dirty || writing }
            let physAddr := pageFrame * PageSize + offset
            check (physAddr + size ≤ MemorySize) .assertion
            .ok (.ok (physAddr, mmu.set i entry))

end Mmu

structure Memory where
  mainMemory : Buf
  mmu : Mmu
  /-- The build option `HOST_IS_BIG_ENDIAN`. -/
  hostIsBigEndian : Bool

/-- Why an instruction does not complete: the simulator stops, or an exception is
raised with this address and the memory as it is then. -/
inductive Stop where
  | fault (fault : Fault)
  | exception (which : ExceptionType) (badVAddr : Word) (memory : Memory)

abbrev Attempt := Except Stop

/-- A check that stops the simulator. -/
def guarded {α : Type} : Exec α → Attempt α
  | .ok a => .ok a
  | .error fault => .error (.fault fault)

namespace Memory

variable (m : Memory)

/-- `*(unsigned short *) &mainMemory[a]`. -/
def hostShort (a : Nat) : BitVec 16 :=
  if m.hostIsBigEndian then m.mainMemory a ++ m.mainMemory (a + 1)
  else m.mainMemory (a + 1) ++ m.mainMemory a

/-- `*(unsigned int *) &mainMemory[a]`. -/
def hostWord (a : Nat) : Word :=
  if m.hostIsBigEndian then
    m.mainMemory a ++ m.mainMemory (a + 1) ++ m.mainMemory (a + 2) ++ m.mainMemory (a + 3)
  else word m.mainMemory a

def setHostShort (a : Nat) (x : BitVec 16) : Memory :=
  let bytes := fun k => x.extractLsb' (8 * (if m.hostIsBigEndian then 1 - k else k)) 8
  { m with mainMemory := blit m.mainMemory a bytes 2 }

def setHostWord (a : Nat) (x : Word) : Memory :=
  let bytes := fun k => x.extractLsb' (8 * (if m.hostIsBigEndian then 3 - k else k)) 8
  { m with mainMemory := blit m.mainMemory a bytes 4 }

/-- `WordToHost`, which is also `WordToMachine`. -/
def wordToHost (x : Word) : Word :=
  if m.hostIsBigEndian then
    (x >>> 24 &&& 0x000000ff) ||| (x >>> 8 &&& 0x0000ff00) ||| (x <<< 8 &&& 0x00ff0000) |||
      (x <<< 24 &&& 0xff000000)
  else x

/-- `ShortToHost`, which is also `ShortToMachine`. -/
def shortToHost (x : BitVec 16) : BitVec 16 :=
  if m.hostIsBigEndian then (x <<< 8 &&& 0xff00) ||| (x >>> 8 &&& 0x00ff) else x

/-- `Machine::ReadMem`. -/
def readMem (addr : Word) (size : Nat) : Attempt (Word × Memory) := do
  match ← guarded (m.mmu.translate addr size false) with
  | .error exception => .error (.exception exception addr m)
  | .ok (physicalAddress, mmu) =>
    let m := { m with mmu }
    match size with
    | 1 => .ok ((m.mainMemory physicalAddress).signExtend 32, m)
    | 2 => .ok ((m.shortToHost (m.hostShort physicalAddress)).setWidth 32, m)
    | 4 => .ok (m.wordToHost (m.hostWord physicalAddress), m)
    | _ => .error (.fault .assertion)

/-- `Machine::WriteMem`. -/
def writeMem (addr : Word) (size : Nat) (value : Word) : Attempt Memory := do
  match ← guarded (m.mmu.translate addr size true) with
  | .error exception => .error (.exception exception addr m)
  | .ok (physicalAddress, mmu) =>
    let m := { m with mmu }
    match size with
    | 1 =>
      .ok { m with mainMemory := Function.update m.mainMemory physicalAddress (value.setWidth 8) }
    | 2 => .ok (m.setHostShort physicalAddress (m.shortToHost ((value &&& 0xffff).setWidth 16)))
    | 4 => .ok (m.setHostWord physicalAddress (m.wordToHost value))
    | _ => .error (.fault .assertion)

end Memory

section Access

variable {mmu : Mmu} {m : Memory} {addr : Word} {size : Nat}

theorem Mmu.find_lt {vpn i : Nat} (found : mmu.find vpn = .ok i) : i < mmu.entries.length := by
  cases mmu with
  | pageTable entries =>
    simp only [find] at found
    split at found
    next => cases found
    next entry listed =>
      split at found
      next =>
        cases found
        exact (List.getElem?_eq_some_iff.mp listed).1
      next => cases found
  | tlb entries =>
    simp only [find] at found
    split at found
    next => cases found
    next j listed =>
      cases found
      exact (List.findIdx?_eq_some_iff_getElem.mp listed).1

/-- An access that passed the alignment check stays inside its page. -/
theorem offset_add_size (sized : size = 1 ∨ size = 2 ∨ size = 4)
    (aligned : ¬ ((size = 4 ∧ addr &&& 3 ≠ 0) ∨ (size = 2 ∧ addr &&& 1 ≠ 0))) :
    addr.toNat % PageSize + size ≤ PageSize := by
  have three : (addr &&& 3 : Word).toNat = addr.toNat % 4 := by
    rw [BitVec.toNat_and]
    exact Nat.and_two_pow_sub_one_eq_mod addr.toNat 2
  have one : (addr &&& 1 : Word).toNat = addr.toNat % 2 := by
    rw [BitVec.toNat_and]
    exact Nat.and_two_pow_sub_one_eq_mod addr.toNat 1
  unfold PageSize
  rcases sized with rfl | rfl | rfl
  · omega
  · have : addr &&& 1 = 0 := by
      by_contra odd
      exact aligned (.inr ⟨rfl, odd⟩)
    rw [this] at one
    simp only [BitVec.ofNat_eq_ofNat, BitVec.toNat_ofNat] at one
    omega
  · have : addr &&& 3 = 0 := by
      by_contra odd
      exact aligned (.inl ⟨rfl, odd⟩)
    rw [this] at three
    simp only [BitVec.ofNat_eq_ofNat, BitVec.toNat_ofNat] at three
    omega

/-- The assertion of `Translate` holds, for any page table or TLB. -/
theorem Mmu.translate_returns (mmu : Mmu) (addr : Word) (writing : Bool)
    (sized : size = 1 ∨ size = 2 ∨ size = 4) :
    ∃ r, mmu.translate addr size writing = .ok r := by
  unfold translate
  split
  next => exact ⟨_, rfl⟩
  next aligned =>
    have inside := offset_add_size sized aligned
    simp only
    split
    next => exact ⟨_, rfl⟩
    next i found =>
      have listed := find_lt found
      rw [List.getElem?_eq_getElem listed]
      simp only
      split
      next => exact ⟨_, rfl⟩
      next =>
        split
        next => exact ⟨_, rfl⟩
        next frame =>
          have bound : (mmu.entries[i]).physicalPage.toNat * PageSize +
              addr.toNat % PageSize + size ≤ MemorySize := by
            unfold MemorySize
            have := Nat.mul_le_mul_right PageSize (Nat.lt_of_not_le frame)
            have : (mmu.entries[i]).physicalPage.toNat * PageSize + PageSize ≤
              NumPhysPages * PageSize := by
              rw [← Nat.succ_mul]
              exact this
            omega
          rw [check_true bound, Exec.ok_bind]
          exact ⟨_, rfl⟩

/-- `ReadMem` leaves `mainMemory` alone, and raises its exceptions before it has
changed anything. -/
theorem readMem_cases (m : Memory) (addr : Word) (sized : size = 1 ∨ size = 2 ∨ size = 4) :
    (∃ which, m.readMem addr size = .error (.exception which addr m)) ∨
    (∃ value mmu, m.readMem addr size = .ok (value, { m with mmu })) := by
  obtain ⟨r, translated⟩ := m.mmu.translate_returns addr false sized
  unfold Memory.readMem
  rw [translated]
  simp only [guarded, Exec.ok_bind]
  cases r with
  | error which => exact .inl ⟨which, rfl⟩
  | ok r =>
    refine .inr ?_
    rcases sized with rfl | rfl | rfl
    · exact ⟨_, _, rfl⟩
    · exact ⟨_, _, rfl⟩
    · exact ⟨_, _, rfl⟩

theorem writeMem_cases (m : Memory) (addr value : Word) (sized : size = 1 ∨ size = 2 ∨ size = 4) :
    (∃ which, m.writeMem addr size value = .error (.exception which addr m)) ∨
    (∃ m', m.writeMem addr size value = .ok m') := by
  obtain ⟨r, translated⟩ := m.mmu.translate_returns addr true sized
  unfold Memory.writeMem
  rw [translated]
  simp only [guarded, Exec.ok_bind]
  cases r with
  | error which => exact .inl ⟨which, rfl⟩
  | ok r =>
    refine .inr ?_
    rcases sized with rfl | rfl | rfl
    · exact ⟨_, rfl⟩
    · exact ⟨_, rfl⟩
    · exact ⟨_, rfl⟩

end Access

end NachOS.Mips
