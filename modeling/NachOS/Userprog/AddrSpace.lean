import NachOS.Machine.Translate
import NachOS.Userprog.FileCalls
import NachOS.Userprog.Noff

/-!
# Loading a program (userprog/addrspace.cc:60-174)

The constructor maps every page of the address space to the frame of the same number
and clears main memory. `Load` reads the header of a NOFF file, checks that the segments
and the stack fit, and reads the bytes of three segments from the file to their
addresses in main memory; the uninitialized data needs nothing. Compiled with `RDATA` and,
as in the makefile, with `FILESYS_STUB`, so the file is one of the host.

No result of `ReadAt` is looked at. A segment whose bytes end outside of main memory is
an access outside of an object.
-/
namespace NachOS.Userprog
open NachOS.Lib NachOS.Mips NachOS.Stub

def UserStackSize : Nat := 1024

structure AddrSpace where
  pageTable : List TranslationEntry
  numPages : Mips.Word

/-- The entry for page `i`. -/
def identityEntry (i : Nat) : TranslationEntry where
  virtualPage := BitVec.ofNat 32 i
  physicalPage := BitVec.ofNat 32 i
  valid := true
  readOnly := false
  use := false
  dirty := false

/-- `AddrSpace::AddrSpace`; `numPages` is not set. -/
def AddrSpace.new (numPages : Mips.Word) (mainMemory : Buf) : AddrSpace × Buf :=
  (⟨(List.range NumPhysPages).map identityEntry, numPages⟩,
    blit mainMemory 0 (fun _ => 0) MemorySize)

/-- The segment is read from the file if it is not empty; where the file has no byte of it,
nothing is stored. -/
def loadSegment (executable : OpenFile) (mainMemory : Buf) (h : Host) (segment : Segment) :
    Exec (Buf × Host) :=
  if 0 < segment.size.toInt then do
    let (_, data, h) ← executable.readAt h segment.size.toInt segment.inFileAddr.toInt
    check (data = [] ∨ (0 ≤ segment.virtualAddr.toInt ∧
      segment.virtualAddr.toInt + data.length ≤ MemorySize)) .outOfBounds
    .ok (blit mainMemory segment.virtualAddr.toNat (bufferOf data) data.length, h)
  else .ok (mainMemory, h)

/-- The number of pages that the segments and the stack need. -/
def NoffHeader.numPages (noffH : NoffHeader) : Mips.Word :=
  let size := noffH.code.size + noffH.readonlyData.size + noffH.initData.size +
    noffH.uninitData.size + BitVec.ofNat 32 UserStackSize
  BitVec.ofInt 32 (Filesys.divRoundUp size.toNat PageSize)

/-- `AddrSpace::Load`, with what `type` and the header on the stack happen to be. -/
def AddrSpace.load (space : AddrSpace) (big : Bool) (fileName : List Byte) (grant : Option Nat)
    (type : Int) (stack : Buf) (mainMemory : Buf) (h : Host) :
    Exec (Bool × AddrSpace × Buf × Host) :=
  match h.openFile fileName .readWrite grant with
  | (none, h) => .ok (false, space, mainMemory, h)
  | (some fd, h) => do
    let executable := OpenFile.new fd type
    let (_, data, h) ← executable.readAt h NoffHeaderSize 0
    let noffH := readHeader big (blit stack 0 (bufferOf data) data.length)
    check (noffH.noffMagic = NOFFMAGIC) .assertion
    check (noffH.numPages.toNat ≤ NumPhysPages) .assertion
    let (mainMemory, h) ← loadSegment executable mainMemory h noffH.code
    let (mainMemory, h) ← loadSegment executable mainMemory h noffH.initData
    let (mainMemory, h) ← loadSegment executable mainMemory h noffH.readonlyData
    let h ← Close h fd
    .ok (true, { space with numPages := noffH.numPages }, mainMemory, h)

/-- An `int` that is not negative. -/
theorem toInt_small {x : BitVec 32} (small : x.toNat ≤ OFF_MAX) : x.toInt = x.toNat := by
  apply BitVec.toInt_eq_toNat_of_lt
  unfold OFF_MAX at small
  omega

/-- Byte `i` of a part of a file. -/
theorem bufferOf_slice (file : List Byte) {start n i : Nat} (hi : i < n) :
    bufferOf ((file.drop start).take n) i = bufferOf file (start + i) := by
  unfold bufferOf
  rw [List.getD_eq_getElem?_getD, List.getD_eq_getElem?_getD, List.getElem?_take_of_lt hi,
    List.getElem?_drop]

section Places

open NachOS.Filesys (FlatFile)

variable {f : OpenFile} {h : Host} {flat : FlatFile} {d : Descriptor} {segment : Segment}

/-- Main memory with the bytes of the segment at their place. -/
def Segment.place (segment : Segment) (file : List Byte) (mainMemory : Buf) : Buf :=
  blit mainMemory segment.virtualAddr.toNat (fun k => bufferOf file (segment.inFileAddr.toNat + k))
    segment.size.toNat

/-- There is nothing to read, or it is all in the file and there is room for it. -/
def Segment.Placeable (segment : Segment) (file : List Byte) : Prop :=
  segment.size = 0 ∨
    (segment.inFileAddr.toNat + segment.size.toNat ≤ file.length ∧
      segment.virtualAddr.toNat + segment.size.toNat ≤ MemorySize)

theorem place_empty (empty : segment.size = 0) (file : List Byte) (mainMemory : Buf) :
    segment.place file mainMemory = mainMemory := by
  have none : segment.size.toNat = 0 := by rw [empty]; rfl
  funext a
  exact blit_outside (by omega)

theorem loadSegment_places (follows : f.Follows h flat d) (placeable : segment.Placeable flat.bytes)
    (mainMemory : Buf) :
    ∃ h' d', loadSegment f mainMemory h segment = .ok (segment.place flat.bytes mainMemory, h') ∧
      f.Follows h' flat d' := by
  by_cases empty : segment.size = 0
  · refine ⟨h, d, ?_, follows⟩
    unfold loadSegment
    rw [empty, if_neg (by decide), place_empty empty]
  · obtain ⟨inFile, inMemory⟩ := placeable.resolve_left empty
    have max := follows.max
    have small : MemorySize ≤ OFF_MAX := by decide
    have size : segment.size.toInt = segment.size.toNat := toInt_small (by omega)
    have address : segment.virtualAddr.toInt = segment.virtualAddr.toNat := toInt_small (by omega)
    have offset : segment.inFileAddr.toInt = segment.inFileAddr.toNat := toInt_small (by omega)
    have positive : 0 < segment.size.toNat := by
      apply Nat.pos_of_ne_zero
      intro zero
      exact empty (BitVec.eq_of_toNat_eq zero)
    obtain ⟨h', readAt, isOpen, contents⟩ := OpenFile.readAt_follows follows inFile
    have length : (flat.slice segment.inFileAddr.toNat segment.size.toNat).length =
        segment.size.toNat := length_slice inFile
    have room : flat.slice segment.inFileAddr.toNat segment.size.toNat = [] ∨
        ((0 : Int) ≤ segment.virtualAddr.toNat ∧
          (segment.virtualAddr.toNat : Int) + segment.size.toNat ≤ MemorySize) :=
      .inr (by omega)
    have same : blit mainMemory segment.virtualAddr.toNat
          (bufferOf (flat.slice segment.inFileAddr.toNat segment.size.toNat)) segment.size.toNat =
        segment.place flat.bytes mainMemory := by
      apply blit_congr
      intro i hi
      exact bufferOf_slice flat.bytes hi
    refine ⟨h', { d with offset := segment.inFileAddr.toNat + segment.size.toNat }, ?_, ?_⟩
    · unfold loadSegment
      rw [if_pos (by omega), size, offset, readAt, Exec.ok_bind]
      simp only [length, address, check_true room, Exec.ok_bind, same]
    · exact { follows with
        isOpen := isOpen
        bytes := by rw [contents]; exact follows.bytes
        offset := inFile }

theorem numPages_fit {noffH : NoffHeader}
    (fits : noffH.code.size.toNat + noffH.readonlyData.size.toNat + noffH.initData.size.toNat +
      noffH.uninitData.size.toNat + UserStackSize ≤ MemorySize) :
    noffH.numPages.toNat ≤ NumPhysPages := by
  have memory : MemorySize = 16384 := rfl
  have stack : (BitVec.ofNat 32 UserStackSize).toNat = UserStackSize := rfl
  have sum : (noffH.code.size + noffH.readonlyData.size + noffH.initData.size +
      noffH.uninitData.size + BitVec.ofNat 32 UserStackSize).toNat ≤ MemorySize := by
    simp only [BitVec.toNat_add, stack]
    omega
  unfold NoffHeader.numPages
  simp only
  generalize (noffH.code.size + noffH.readonlyData.size + noffH.initData.size +
    noffH.uninitData.size + BitVec.ofNat 32 UserStackSize).toNat = size at sum
  have pages : 0 ≤ Filesys.divRoundUp size PageSize ∧ Filesys.divRoundUp size PageSize ≤ 128 := by
    unfold Filesys.divRoundUp PageSize
    rw [Int.tdiv_eq_ediv_of_nonneg (by omega), Int.tmod_eq_emod_of_nonneg (by omega)]
    split <;> omega
  rw [BitVec.toNat_ofInt]
  unfold NumPhysPages
  omega

/-- The header and the segments of a file that can be loaded. -/
structure Loadable (big : Bool) (file : List Byte) (noffH : NoffHeader) : Prop where
  small : file.length ≤ OFF_MAX
  long : NoffHeaderSize ≤ file.length
  header : ∀ b : Buf, (∀ i < NoffHeaderSize, b i = bufferOf file i) → readHeader big b = noffH
  magic : noffH.noffMagic = NOFFMAGIC
  fits : noffH.code.size.toNat + noffH.readonlyData.size.toNat + noffH.initData.size.toNat +
    noffH.uninitData.size.toNat + UserStackSize ≤ MemorySize
  code : noffH.code.Placeable file
  initData : noffH.initData.Placeable file
  readonlyData : noffH.readonlyData.Placeable file

variable {big : Bool} {file : List Byte} {noffH : NoffHeader} {fileName : List Byte}
  {inode fd : Nat}

theorem opens_executable (named : h.names fileName = some inode) (contents : h.contents inode = file)
    (small : file.length ≤ OFF_MAX) (unopened : h.fds fd = none) (type : Int) :
    ∃ h' d, h.openFile fileName .readWrite (some fd) = (some fd, h') ∧
      (OpenFile.new fd type).Follows h' ⟨file, 0⟩ d := by
  rw [← contents] at small
  refine ⟨_, ⟨inode, 0, true, true⟩,
    Host.openFile_existing .readWrite (by decide) unopened named small, ?_⟩
  exact {
    isOpen := Function.update_self _ _ _
    readable := rfl
    writable := rfl
    bytes := contents
    position := rfl
    inside := ⟨le_refl _, Int.natCast_nonneg _⟩
    offset := Nat.zero_le _
    max := contents ▸ small }

/-- The header is read over whatever was on the stack. -/
theorem header_loads (loadable : Loadable big file noffH) (follows : f.Follows h ⟨file, 0⟩ d)
    (stack : Buf) :
    ∃ data h' d', f.readAt h NoffHeaderSize 0 = .ok ((NoffHeaderSize : Int), data, h') ∧
      readHeader big (blit stack 0 (bufferOf data) data.length) = noffH ∧
      f.Follows h' ⟨file, 0⟩ d' := by
  have whole : 0 + NoffHeaderSize ≤ (⟨file, 0⟩ : FlatFile).bytes.length := by
    rw [Nat.zero_add]
    exact loadable.long
  obtain ⟨h', readAt, isOpen, same⟩ := OpenFile.readAt_follows follows whole
  refine ⟨(file.drop 0).take NoffHeaderSize, h', { d with offset := 0 + NoffHeaderSize }, readAt,
    ?_, ?_⟩
  · apply loadable.header
    intro i hi
    rw [length_slice whole, blit_inside (Nat.zero_le _) (by omega),
      bufferOf_slice file (by omega), Nat.zero_add, Nat.sub_zero]
  · exact { follows with
      isOpen := isOpen
      bytes := by
        rw [same]
        exact follows.bytes
      offset := whole }

/-- `Load` succeeds and main memory has the bytes of the three segments. -/
theorem load_places (loadable : Loadable big file noffH) (named : h.names fileName = some inode)
    (contents : h.contents inode = file) (unopened : h.fds fd = none) (space : AddrSpace)
    (type : Int) (stack mainMemory : Buf) :
    ∃ h', space.load big fileName (some fd) type stack mainMemory h =
      .ok (true, { space with numPages := noffH.numPages },
        noffH.readonlyData.place file
          (noffH.initData.place file (noffH.code.place file mainMemory)), h') := by
  obtain ⟨h₁, d₁, opened, follows₁⟩ :=
    opens_executable named contents loadable.small unopened type
  obtain ⟨data, h₂, d₂, readAt, header, follows₂⟩ := header_loads loadable follows₁ stack
  obtain ⟨h₃, d₃, code, follows₃⟩ := loadSegment_places follows₂ loadable.code mainMemory
  obtain ⟨h₄, d₄, initData, follows₄⟩ := loadSegment_places follows₃ loadable.initData
    (noffH.code.place file mainMemory)
  obtain ⟨h₅, d₅, readonlyData, follows₅⟩ := loadSegment_places follows₄ loadable.readonlyData
    (noffH.initData.place file (noffH.code.place file mainMemory))
  have isOpen : (h₅.fds fd).isSome = true := by
    rw [show h₅.fds fd = some d₅ from follows₅.isOpen]
    rfl
  refine ⟨{ h₅ with fds := Function.update h₅.fds fd none }, ?_⟩
  unfold AddrSpace.load
  rw [opened]
  simp only [readAt, Exec.ok_bind, header, check_true loadable.magic,
    check_true (numPages_fit loadable.fits), code, initData, readonlyData,
    Close_eq_ok.mpr ⟨isOpen, rfl⟩]

end Places

end NachOS.Userprog
