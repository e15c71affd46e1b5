import NachOS.Userprog.AddrSpace

/-!
# Where `AddrSpace::Load` writes (userprog/addrspace.cc:105-174)

`Load` makes sure that the sizes of the segments and the stack add up to no more than
main memory; the addresses to which it then reads the segments are those of the header,
and nothing is known about them. So whether the program stays in the part of memory that
was computed for it, and off the stack at its end, depends on the header alone.
-/
namespace NachOS.Userprog
open NachOS.Lib NachOS.Mips NachOS.Stub

/-- The header that `Load` finds in a file, over what was on the stack. -/
def headerIn (big : Bool) (stack : Buf) (file : List Byte) : NoffHeader :=
  readHeader big
    (blit stack 0 (bufferOf (file.take NoffHeaderSize)) (file.take NoffHeaderSize).length)

namespace Segment

/-- There are bytes in the segment; only then is it loaded. -/
def Nonempty (segment : Segment) : Prop := 0 < segment.size.toInt

instance (segment : Segment) : Decidable segment.Nonempty :=
  inferInstanceAs (Decidable (0 < segment.size.toInt))

/-- The first address behind the segment. -/
def finish (segment : Segment) : Int := segment.virtualAddr.toInt + segment.size.toInt

/-- The bytes of the segment that are in the file. -/
def delivered (segment : Segment) (file : List Byte) : List Byte :=
  (file.drop segment.inFileAddr.toInt.toNat).take segment.size.toInt.toNat

/-- They are read to places in main memory, if there are any. -/
def Reaches (segment : Segment) (file : List Byte) : Prop :=
  segment.delivered file = [] ∨ (0 ≤ segment.virtualAddr.toInt ∧
    segment.virtualAddr.toInt + (segment.delivered file).length ≤ MemorySize)

instance (segment : Segment) (file : List Byte) : Decidable (segment.Reaches file) :=
  inferInstanceAs (Decidable (_ ∨ _))

end Segment

namespace NoffHeader

/-- The segments that are loaded, in this order. -/
def loaded (noffH : NoffHeader) : List Segment := [noffH.code, noffH.initData, noffH.readonlyData]

def segments (noffH : NoffHeader) : List Segment := noffH.loaded ++ [noffH.uninitData]

/-- The sizes of the segments and of the stack, as an `unsigned int`. -/
def size (noffH : NoffHeader) : Nat :=
  (noffH.code.size + noffH.readonlyData.size + noffH.initData.size + noffH.uninitData.size +
    BitVec.ofNat 32 UserStackSize).toNat

/-- The first address of the stack, if the size is rounded up to whole pages. -/
def stackStart (noffH : NoffHeader) : Int :=
  ((noffH.size + (PageSize - 1)) / PageSize * PageSize : Nat) - (UserStackSize : Int)

/-- The loaded segments end before the stack, and the uninitialized data is not in it. -/
def Fits (noffH : NoffHeader) : Prop :=
  (∀ segment ∈ noffH.loaded, segment.Nonempty →
    0 ≤ segment.virtualAddr.toInt ∧ segment.finish ≤ noffH.stackStart) ∧
  (noffH.uninitData.Nonempty → noffH.uninitData.finish ≤ noffH.stackStart ∨
    noffH.stackStart + UserStackSize ≤ noffH.uninitData.virtualAddr.toInt)

/-- The program needs more pages than there are. -/
def TooBig (noffH : NoffHeader) : Prop := MemorySize < noffH.size

end NoffHeader

/-- A segment has no place in the file, and those before it are read into main memory. -/
def Stopped (file : List Byte) : List Segment → Prop
  | [] => False
  | segment :: rest =>
    (segment.Nonempty ∧ segment.inFileAddr.toInt < 0) ∨
      ((segment.Nonempty → segment.Reaches file) ∧ Stopped file rest)

/-- How `Load` may end: it fails, an assertion stops it, or all that it has written is in the
pages of the program, which hold the loaded segments, and the stack at their end is free. -/
def LoadSafe (noffH : NoffHeader) (mainMemory : Buf) :
    Exec (Bool × AddrSpace × Buf × Host) → Prop
  | .error fault => fault = .assertion
  | .ok (false, _) => True
  | .ok (true, space, mainMemory', _) =>
    space.numPages.toNat ≤ NumPhysPages ∧
    (∀ a, space.numPages.toNat * PageSize ≤ a → mainMemory' a = mainMemory a) ∧
    (∀ segment ∈ noffH.loaded, segment.Nonempty → 0 ≤ segment.virtualAddr.toInt ∧
      segment.finish ≤ space.numPages.toNat * PageSize) ∧
    (∀ segment ∈ noffH.segments, segment.Nonempty →
      segment.finish ≤ space.numPages.toNat * PageSize - UserStackSize ∨
      space.numPages.toNat * PageSize ≤ segment.virtualAddr.toInt)

section Segments

variable {f : OpenFile} {h : Host} {file : List Byte} {segment : Segment} {mainMemory : Buf}

/-- The descriptor leads to the bytes of the file. -/
def Reading (f : OpenFile) (h : Host) (file : List Byte) : Prop :=
  ∃ d, h.fds f.file = some d ∧ d.readable = true ∧ h.contents d.inode = file

theorem readAt_negative (reading : Reading f h file) (n : Int) {position : Int}
    (negative : position < 0) : f.readAt h n position = .error .assertion := by
  obtain ⟨d, isOpen, -, -⟩ := reading
  have refused : ¬(0 : Int) ≤ -1 := by decide
  have seeks : h.lseek f.file position .set = (-1, h) := by
    unfold Host.lseek
    rw [isOpen]
    exact if_pos (.inl negative)
  unfold OpenFile.readAt Lseek
  simp only [seeks, check, if_neg refused, Exec.error_bind]

theorem readAt_reading (reading : Reading f h file) (n position : Nat) (max : position ≤ OFF_MAX) :
    ∃ h', f.readAt h n position =
      .ok ((((file.drop position).take n).length : Int), (file.drop position).take n, h') ∧
      Reading f h' file := by
  obtain ⟨d, isOpen, readable, contents⟩ := reading
  have there : (h.moveTo f.file d position).fds f.file = some { d with offset := position } :=
    Host.moveTo_self position
  have data : (h.moveTo f.file d position).available { d with offset := position } n =
      (file.drop position).take n := by
    unfold Host.available
    rw [Host.moveTo_contents, contents]
  refine ⟨(h.moveTo f.file d position).moveTo f.file { d with offset := position }
      (position + ((file.drop position).take n).length), ?_, ?_⟩
  · unfold OpenFile.readAt
    rw [OpenFile.Lseek_set isOpen max, Exec.ok_bind, Host.read_open there readable n, data]
  · exact ⟨_, Host.moveTo_self _, readable, contents⟩

/-- `loadSegment` on a segment with bytes, by where its bytes are and where they go. -/
theorem loadSegment_empty (empty : ¬segment.Nonempty) :
    loadSegment f mainMemory h segment = .ok (mainMemory, h) :=
  if_neg empty

theorem loadSegment_stops (reading : Reading f h file) (nonempty : segment.Nonempty)
    (negative : segment.inFileAddr.toInt < 0) :
    loadSegment f mainMemory h segment = .error .assertion := by
  unfold Segment.Nonempty at nonempty
  unfold loadSegment
  rw [if_pos nonempty, readAt_negative reading _ negative, Exec.error_bind]

theorem loadSegment_reads (reading : Reading f h file) (nonempty : segment.Nonempty)
    (place : 0 ≤ segment.inFileAddr.toInt) (mainMemory : Buf) :
    ∃ h', Reading f h' file ∧ loadSegment f mainMemory h segment = (do
      check (segment.Reaches file) .outOfBounds
      .ok (blit mainMemory segment.virtualAddr.toNat (bufferOf (segment.delivered file))
        (segment.delivered file).length, h')) := by
  have range := CInt.range segment.inFileAddr
  obtain ⟨h', read, reading'⟩ := readAt_reading reading segment.size.toInt.toNat
    segment.inFileAddr.toInt.toNat (by unfold OFF_MAX; omega)
  refine ⟨h', reading', ?_⟩
  unfold Segment.Nonempty at nonempty
  rw [Int.toNat_of_nonneg place, Int.toNat_of_nonneg (by omega)] at read
  unfold loadSegment
  rw [if_pos nonempty, read, Exec.ok_bind]
  rfl

/-- The segments one after the other. -/
def loadSegments (executable : OpenFile) : List Segment → Buf → Host → Exec (Buf × Host)
  | [], mainMemory, h => .ok (mainMemory, h)
  | segment :: rest, mainMemory, h => do
    let (mainMemory, h) ← loadSegment executable mainMemory h segment
    loadSegments executable rest mainMemory h

/-- The address is in no segment that is loaded. -/
def Untouched (segments : List Segment) (a : Nat) : Prop :=
  ∀ segment ∈ segments, segment.Nonempty →
    (a : Int) < segment.virtualAddr.toInt ∨ segment.finish ≤ a

theorem delivered_length (segment : Segment) (file : List Byte) (nonempty : segment.Nonempty) :
    segment.virtualAddr.toInt + (segment.delivered file).length ≤ segment.finish := by
  unfold Segment.Nonempty at nonempty
  unfold Segment.delivered Segment.finish
  rw [List.length_take]
  omega

/-- What is read of a segment changes memory in the segment only. -/
theorem Segment.Reaches.outside {mainMemory : Buf} (reaches : segment.Reaches file)
    (nonempty : segment.Nonempty) {a : Nat}
    (outside : (a : Int) < segment.virtualAddr.toInt ∨ segment.finish ≤ a) :
    blit mainMemory segment.virtualAddr.toNat (bufferOf (segment.delivered file))
      (segment.delivered file).length a = mainMemory a := by
  rcases reaches with none | ⟨low, -⟩
  · rw [none]
    exact blit_outside (by simp only [List.length_nil]; omega)
  · have length := delivered_length segment file nonempty
    have address : segment.virtualAddr.toInt = segment.virtualAddr.toNat := by
      have := BitVec.toInt_eq_toNat_cond segment.virtualAddr
      have := segment.virtualAddr.isLt
      omega
    exact blit_outside (by omega)

theorem loadSegments_stops {segments : List Segment} (reading : Reading f h file)
    (stopped : Stopped file segments) :
    loadSegments f segments mainMemory h = .error .assertion := by
  induction segments generalizing mainMemory h with
  | nil => exact stopped.elim
  | cons segment rest ih =>
    unfold loadSegments
    rcases stopped with ⟨nonempty, negative⟩ | ⟨reaches, stopped⟩
    · rw [loadSegment_stops reading nonempty negative, Exec.error_bind]
    · by_cases nonempty : segment.Nonempty
      · by_cases negative : segment.inFileAddr.toInt < 0
        · rw [loadSegment_stops reading nonempty negative, Exec.error_bind]
        · obtain ⟨h', reading', reads⟩ := loadSegment_reads reading nonempty
            (Int.not_lt.mp negative) mainMemory
          rw [reads, check_true (reaches nonempty), Exec.ok_bind, Exec.ok_bind]
          exact ih reading' stopped
      · rw [loadSegment_empty nonempty, Exec.ok_bind]
        exact ih reading stopped

/-- Otherwise all segments are read, or one of them goes outside of main memory. -/
theorem loadSegments_reads {segments : List Segment} (mainMemory : Buf)
    (reading : Reading f h file) (stopped : ¬Stopped file segments)
    (reaches : ∀ segment ∈ segments, segment.Nonempty → segment.Reaches file) :
    ∃ mainMemory' h', loadSegments f segments mainMemory h = .ok (mainMemory', h') ∧
      Reading f h' file ∧ ∀ a, Untouched segments a → mainMemory' a = mainMemory a := by
  induction segments generalizing mainMemory h with
  | nil => exact ⟨mainMemory, h, rfl, reading, fun _ _ => rfl⟩
  | cons segment rest ih =>
    have here : segment.Nonempty → segment.Reaches file := reaches segment List.mem_cons_self
    have others : ∀ segment ∈ rest, segment.Nonempty → segment.Reaches file :=
      fun other member => reaches other (List.mem_cons_of_mem _ member)
    have later : ¬Stopped file rest := fun stops => stopped (.inr ⟨here, stops⟩)
    unfold loadSegments
    by_cases nonempty : segment.Nonempty
    · have place : 0 ≤ segment.inFileAddr.toInt :=
        Int.not_lt.mp fun negative => stopped (.inl ⟨nonempty, negative⟩)
      obtain ⟨h₁, reading₁, reads⟩ := loadSegment_reads reading nonempty place mainMemory
      rw [reads, check_true (here nonempty), Exec.ok_bind, Exec.ok_bind]
      obtain ⟨mainMemory', h', done, reading', kept⟩ := ih (blit mainMemory
        segment.virtualAddr.toNat (bufferOf (segment.delivered file))
        (segment.delivered file).length) reading₁ later others
      refine ⟨mainMemory', h', done, reading', fun a untouched => ?_⟩
      rw [kept a fun other member => untouched other (List.mem_cons_of_mem _ member)]
      exact Segment.Reaches.outside (here nonempty) nonempty
        (untouched segment List.mem_cons_self nonempty)
    · rw [loadSegment_empty nonempty, Exec.ok_bind]
      obtain ⟨mainMemory', h', done, reading', kept⟩ := ih mainMemory reading later others
      exact ⟨mainMemory', h', done, reading',
        fun a untouched => kept a fun other member =>
          untouched other (List.mem_cons_of_mem _ member)⟩

theorem loadSegments_leaves {segments : List Segment} (reading : Reading f h file)
    (stopped : ¬Stopped file segments)
    (leaves : ¬∀ segment ∈ segments, segment.Nonempty → segment.Reaches file) :
    loadSegments f segments mainMemory h = .error .outOfBounds := by
  induction segments generalizing mainMemory h with
  | nil => exact absurd (fun segment member => by cases member) leaves
  | cons segment rest ih =>
    unfold loadSegments
    by_cases nonempty : segment.Nonempty
    · have place : 0 ≤ segment.inFileAddr.toInt :=
        Int.not_lt.mp fun negative => stopped (.inl ⟨nonempty, negative⟩)
      obtain ⟨h₁, reading₁, reads⟩ := loadSegment_reads reading nonempty place mainMemory
      rw [reads]
      by_cases reaches : segment.Reaches file
      · rw [check_true reaches, Exec.ok_bind, Exec.ok_bind]
        apply ih reading₁ (fun stops => stopped (.inr ⟨fun _ => reaches, stops⟩))
        intro others
        apply leaves
        intro other member
        rcases List.mem_cons.mp member with rfl | member
        · exact fun _ => reaches
        · exact others other member
      · unfold check
        rw [if_neg reaches, Exec.error_bind, Exec.error_bind]
    · rw [loadSegment_empty nonempty, Exec.ok_bind]
      apply ih reading
        (fun stops => stopped (.inr ⟨fun bytes => absurd bytes nonempty, stops⟩))
      intro others
      apply leaves
      intro other member
      rcases List.mem_cons.mp member with rfl | member
      · exact fun bytes => absurd bytes nonempty
      · exact others other member

end Segments

section Loads

variable {h h₁ : Host} {fileName : List Byte} {grant : Option Nat} {fd : Nat} {noffH : NoffHeader}

/-- The contents of the file that a name leads to. -/
def executableAt (h : Host) (fileName : List Byte) : List Byte :=
  match h.names fileName with
  | some inode => h.contents inode
  | none => []

theorem openFile_reading (type : Int)
    (opened : h.openFile fileName .readWrite grant = (some fd, h₁)) :
    Reading (OpenFile.new fd type) h₁ (executableAt h fileName) := by
  unfold Host.openFile at opened
  split at opened
  next => cases opened
  next granted =>
    split at opened
    next => cases opened
    next =>
      split at opened
      next => cases opened
      next inode h' resolved =>
        cases opened
        cases named : h.names fileName with
        | none =>
          simp only [Host.resolve, named] at resolved
          cases resolved
        | some inode' =>
          simp only [Host.resolve, named, Prod.mk.injEq] at resolved
          obtain ⟨same, rfl⟩ := resolved
          split at same
          next =>
            cases same
            refine ⟨_, Function.update_self _ _ _, rfl, ?_⟩
            unfold executableAt
            rw [named]
          next => cases same

/-- The pages that `Load` computes. -/
theorem numPages_eq (noffH : NoffHeader) :
    noffH.numPages.toNat = (noffH.size + (PageSize - 1)) / PageSize := by
  have bound : noffH.size < 2 ^ 32 := BitVec.isLt _
  unfold NoffHeader.numPages
  change (BitVec.ofInt 32 (Filesys.divRoundUp (noffH.size : Int) PageSize)).toNat = _
  generalize noffH.size = size at bound
  unfold Filesys.divRoundUp PageSize
  rw [Int.tdiv_eq_ediv_of_nonneg (by omega), Int.tmod_eq_emod_of_nonneg (by omega),
    BitVec.toNat_ofInt]
  split <;> omega

theorem numPages_le_iff (noffH : NoffHeader) :
    noffH.numPages.toNat ≤ NumPhysPages ↔ ¬noffH.TooBig := by
  rw [numPages_eq]
  unfold NoffHeader.TooBig MemorySize NumPhysPages PageSize
  omega

theorem stackStart_eq (noffH : NoffHeader) :
    noffH.stackStart = noffH.numPages.toNat * PageSize - UserStackSize := by
  unfold NoffHeader.stackStart
  rw [numPages_eq]
  push_cast
  rfl

/-- The header's part of what `Load` is to guarantee. -/
theorem fits_iff (noffH : NoffHeader) : noffH.Fits ↔
    (∀ segment ∈ noffH.loaded, segment.Nonempty → 0 ≤ segment.virtualAddr.toInt ∧
      segment.finish ≤ noffH.numPages.toNat * PageSize) ∧
    (∀ segment ∈ noffH.segments, segment.Nonempty →
      segment.finish ≤ noffH.numPages.toNat * PageSize - UserStackSize ∨
      noffH.numPages.toNat * PageSize ≤ segment.virtualAddr.toInt) := by
  have stack : (UserStackSize : Int) = 1024 := rfl
  unfold NoffHeader.Fits NoffHeader.segments
  rw [stackStart_eq]
  constructor
  · rintro ⟨loaded, uninitData⟩
    refine ⟨fun segment member nonempty => ?_, fun segment member nonempty => ?_⟩
    · have := loaded segment member nonempty
      omega
    · rcases List.mem_append.mp member with member | member
      · exact .inl (loaded segment member nonempty).2
      · cases List.mem_singleton.mp member
        have := uninitData nonempty
        omega
  · rintro ⟨inside, free⟩
    refine ⟨fun segment member nonempty => ?_, fun nonempty => ?_⟩
    · have range := inside segment member nonempty
      have apart := free segment (List.mem_append_left _ member) nonempty
      have positive := nonempty
      unfold Segment.Nonempty at positive
      unfold Segment.finish at range apart ⊢
      omega
    · have := free noffH.uninitData (List.mem_append_right _ (List.mem_singleton.mpr rfl)) nonempty
      omega

/-- `Load` on a file that was opened. -/
theorem load_opened (space : AddrSpace) (big : Bool) (type : Int) (stack mainMemory : Buf)
    (opened : h.openFile fileName .readWrite grant = (some fd, h₁))
    (header : headerIn big stack (executableAt h fileName) = noffH) :
    ∃ h₂, Reading (OpenFile.new fd type) h₂ (executableAt h fileName) ∧
      space.load big fileName grant type stack mainMemory h = (do
        check (noffH.noffMagic = NOFFMAGIC) .assertion
        check (noffH.numPages.toNat ≤ NumPhysPages) .assertion
        let (mainMemory, h) ← loadSegments (OpenFile.new fd type) noffH.loaded mainMemory h₂
        let h ← Close h fd
        .ok (true, { space with numPages := noffH.numPages }, mainMemory, h)) := by
  obtain ⟨h₂, read, reading⟩ := readAt_reading (openFile_reading type opened) NoffHeaderSize 0
    (Nat.zero_le _)
  rw [List.drop_zero] at read
  refine ⟨h₂, reading, ?_⟩
  unfold AddrSpace.load
  rw [opened]
  simp only [Nat.cast_zero] at read
  unfold headerIn at header
  simp only [read, Exec.ok_bind, header, NoffHeader.loaded, loadSegments, bind_assoc]

/-- A file that cannot be opened. -/
theorem load_unopened (space : AddrSpace) (big : Bool) (type : Int) (stack mainMemory : Buf)
    (refused : (h.openFile fileName .readWrite grant).1 = none) :
    ∃ h', space.load big fileName grant type stack mainMemory h =
      .ok (false, space, mainMemory, h') := by
  unfold AddrSpace.load
  split
  next h' failed => exact ⟨h', rfl⟩
  next fd h' opened =>
    rw [opened] at refused
    cases refused

theorem Fits.reaches (fits : noffH.Fits) (small : ¬noffH.TooBig) (file : List Byte) :
    ∀ segment ∈ noffH.loaded, segment.Nonempty → segment.Reaches file := by
  intro segment member nonempty
  have inside := ((fits_iff noffH).mp fits).1 segment member nonempty
  have pages := (numPages_le_iff noffH).mpr small
  have length := delivered_length segment file nonempty
  refine .inr ⟨inside.1, ?_⟩
  unfold MemorySize
  have := Nat.mul_le_mul_right PageSize pages
  omega

/-- What follows the two checks. -/
theorem segments_safe_iff {file : List Byte} {f : OpenFile} (space : AddrSpace) (mainMemory : Buf)
    (reading : Reading f h file) (small : ¬noffH.TooBig) :
    LoadSafe noffH mainMemory (do
      let (mainMemory, h) ← loadSegments f noffH.loaded mainMemory h
      let h ← Close h f.file
      .ok (true, { space with numPages := noffH.numPages }, mainMemory, h)) ↔
    Stopped file noffH.loaded ∨ noffH.Fits := by
  by_cases stopped : Stopped file noffH.loaded
  · rw [loadSegments_stops reading stopped, Exec.error_bind]
    exact iff_of_true rfl (.inl stopped)
  by_cases reaches : ∀ segment ∈ noffH.loaded, segment.Nonempty → segment.Reaches file
  · obtain ⟨mainMemory', h', done, ⟨d, isOpen, _⟩, kept⟩ :=
      loadSegments_reads mainMemory reading stopped reaches
    have closes := Close_eq_ok.mpr ⟨by rw [isOpen]; rfl, rfl⟩
    rw [done, Exec.ok_bind]
    simp only [closes, Exec.ok_bind, LoadSafe]
    rw [← fits_iff]
    constructor
    · rintro ⟨-, -, fits⟩
      exact .inr fits
    · intro either
      have fits := either.resolve_left stopped
      refine ⟨(numPages_le_iff noffH).mpr small, fun a above => ?_, fits⟩
      apply kept
      intro segment member nonempty
      have inside := ((fits_iff noffH).mp fits).1 segment member nonempty
      omega
  · rw [loadSegments_leaves reading stopped reaches, Exec.error_bind]
    refine iff_of_false (by simp [LoadSafe]) ?_
    intro either
    exact reaches (Fits.reaches (either.resolve_left stopped) small file)

/-- Every executable: `Load` keeps to the memory of the program exactly if the header makes
it stop, or if the segments of the header end before the stack. -/
theorem load_safe_iff (space : AddrSpace) (big : Bool) (fileName : List Byte) (grant : Option Nat)
    (type : Int) (stack mainMemory : Buf) (h : Host) (noffH : NoffHeader)
    (header : headerIn big stack (executableAt h fileName) = noffH) :
    LoadSafe noffH mainMemory (space.load big fileName grant type stack mainMemory h) ↔
      (h.openFile fileName .readWrite grant).1 = none ∨ noffH.noffMagic ≠ NOFFMAGIC ∨
      noffH.TooBig ∨ Stopped (executableAt h fileName) noffH.loaded ∨ noffH.Fits := by
  cases opened : h.openFile fileName .readWrite grant with
  | mk result h₁ =>
  cases result with
  | none =>
    obtain ⟨h', failed⟩ := load_unopened space big type stack mainMemory
      (congrArg Prod.fst opened)
    rw [failed]
    exact iff_of_true trivial (.inl rfl)
  | some fd =>
    obtain ⟨h₂, reading, runs⟩ := load_opened space big type stack mainMemory opened header
    have isOpened : ¬((some fd : Option Nat), h₁).1 = none := by simp
    rw [runs]
    by_cases magic : noffH.noffMagic = NOFFMAGIC
    · by_cases big : noffH.TooBig
      · have refused : ¬noffH.numPages.toNat ≤ NumPhysPages := fun small =>
          (numPages_le_iff noffH).mp small big
        rw [check_true magic, Exec.ok_bind, check, if_neg refused, Exec.error_bind]
        exact iff_of_true rfl (.inr (.inr (.inl big)))
      · have inner := segments_safe_iff space mainMemory reading big
        rw [check_true magic, Exec.ok_bind, check_true ((numPages_le_iff noffH).mpr big),
          Exec.ok_bind]
        simp only [isOpened, magic, big, ne_eq, not_true_eq_false, false_or]
        exact inner
    · rw [check, if_neg magic, Exec.error_bind]
      exact iff_of_true rfl (.inr (.inl magic))

/-- A header with four bytes of code, for this address. -/
def codeAt (virtualAddr : BitVec 32) : NoffHeader where
  noffMagic := NOFFMAGIC
  code := ⟨virtualAddr, 52, 4⟩
  initData := ⟨0, 0, 0⟩
  readonlyData := ⟨0, 0, 0⟩
  uninitData := ⟨0, 0, 0⟩

/-- A host on which every name leads to this executable. -/
def executableHost (noffH : NoffHeader) : Host where
  names := fun _ => some 0
  contents := fun _ => (List.range NoffHeaderSize).map (noffH.bytes false) ++ [1, 2, 3, 4]
  fds := fun _ => none
  nextInode := 1

def emptySpace : AddrSpace := (AddrSpace.new 0 (fun _ => 0)).1

theorem load_safe_iff_low :
    LoadSafe (codeAt 0) (fun _ => 0) (emptySpace.load false [] (some 3) 0 (fun _ => 0) (fun _ => 0)
      (executableHost (codeAt 0))) := by
  have header : headerIn false (fun _ => 0) (executableAt (executableHost (codeAt 0)) []) =
      codeAt 0 := by
    decide +kernel
  refine (load_safe_iff emptySpace false [] (some 3) 0 _ _ _ (codeAt 0) header).mpr ?_
  refine .inr (.inr (.inr (.inr ⟨?_, ?_⟩)))
  · intro segment member nonempty
    simp only [NoffHeader.loaded, codeAt, List.mem_cons, List.not_mem_nil, or_false] at member
    rcases member with rfl | rfl | rfl
    · decide
    · exact absurd nonempty (by decide)
    · exact absurd nonempty (by decide)
  · intro nonempty
    exact absurd nonempty (by decide)

/-- What a call of `Load` that succeeded shows of the program and of its memory. -/
def loadedAt (a : Nat) : Exec (Bool × AddrSpace × Buf × Host) → Option (Mips.Word × Byte)
  | .ok (true, space, mainMemory, _) => some (space.numPages, mainMemory a)
  | _ => none

/-- The code at address 8192 is read to page 64 of a program of 9 pages. -/
theorem load_writes_outside :
    headerIn false (fun _ => 0) (executableAt (executableHost (codeAt 8192)) []) = codeAt 8192 ∧
    ∃ space mainMemory h', emptySpace.load false [] (some 3) 0 (fun _ => 0) (fun _ => 0)
        (executableHost (codeAt 8192)) = .ok (true, space, mainMemory, h') ∧
      space.numPages = 9 ∧ mainMemory 8192 = 1 ∧
      ¬LoadSafe (codeAt 8192) (fun _ => 0) (.ok (true, space, mainMemory, h')) := by
  have header : headerIn false (fun _ => 0) (executableAt (executableHost (codeAt 8192)) []) =
      codeAt 8192 := by
    decide +kernel
  have shown : loadedAt 8192 (emptySpace.load false [] (some 3) 0 (fun _ => 0) (fun _ => 0)
      (executableHost (codeAt 8192))) = some (9, 1) := by
    decide +kernel
  refine ⟨header, ?_⟩
  unfold loadedAt at shown
  split at shown
  next space mainMemory h' done =>
    obtain ⟨pages, byte⟩ := Prod.mk.inj (Option.some.inj shown)
    refine ⟨space, mainMemory, h', done, pages, byte, ?_⟩
    rintro ⟨-, kept, -⟩
    have outside := kept 8192 (by rw [pages]; decide)
    rw [byte] at outside
    exact absurd outside (by decide)
  next => cases shown

end Loads

end NachOS.Userprog
