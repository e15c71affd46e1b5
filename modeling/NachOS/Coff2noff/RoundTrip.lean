import NachOS.Coff2noff.Convert
import NachOS.Userprog.AddrSpace
import Mathlib.Data.List.Pairwise

/-!
# From a COFF file to main memory

What the converter writes and the loader reads back: the raw data of each section ends up
at the address of the section, whatever the order of the sections in the file and the
order of the bytes on either host, and the rest of main memory is zero
(`load_converted`).

The loop of the converter keeps `Converted`: each segment of the header represents the
one section of its kind among those that were seen (`Represents`), and the bytes that
were copied for it are in the output behind the place of the header.
-/
namespace NachOS.Coff2noff
open NachOS.Lib NachOS.Userprog NachOS.Stub
open NachOS.Mips (MemorySize)

/-- The number of section headers of a COFF file. -/
def numSections (coff : List Byte) : Nat := (short (bufferOf coff) 2).toNat

/-- Where the section headers start. -/
def HeadersSize : Nat := FilehdrSize + AouthdrSize

/-- The sections that a COFF file lists. -/
def coffSections (coff : List Byte) : List Scnhdr :=
  (List.range (numSections coff)).map (sectionAt false fun k => bufferOf coff (HeadersSize + k))

namespace Scnhdr

def nonEmpty (s : Scnhdr) : Bool := decide (s.size ≠ 0)

/-- The section takes up this address. -/
def Covers (s : Scnhdr) (a : Nat) : Prop :=
  s.paddr.toNat ≤ a ∧ a < s.paddr.toNat + s.size.toNat

/-- The sections have no address in common. -/
def Apart (s t : Scnhdr) : Prop :=
  s.paddr.toNat + s.size.toNat ≤ t.paddr.toNat ∨ t.paddr.toNat + t.size.toNat ≤ s.paddr.toNat

instance (s t : Scnhdr) : Decidable (s.Apart t) := inferInstanceAs (Decidable (_ ∨ _))

end Scnhdr

/-- What is asked of the sections that are not empty: at most one of each kind and no
other, at disjoint addresses in memory, with their raw data in the file and small enough to
leave room for the stack. -/
structure Sound (coff : List Byte) (sections : List Scnhdr) : Prop where
  known : ∀ s ∈ sections, s.kind ≠ none
  single : sections.Pairwise fun s t => s.kind ≠ t.kind
  apart : sections.Pairwise Scnhdr.Apart
  inMemory : ∀ s ∈ sections, s.paddr.toNat + s.size.toNat ≤ MemorySize
  rawData : ∀ s ∈ sections, s.kind ≠ some .uninitData →
    s.scnptr.toNat + s.size.toNat ≤ coff.length
  fits : (sections.map fun s => s.size.toNat).sum + UserStackSize ≤ MemorySize

/-- A COFF file that can be converted and loaded. -/
structure WellFormed (coff : List Byte) : Prop where
  mipsel : short (bufferOf coff) 0 = MIPSELMAGIC
  omagic : short (bufferOf coff) FilehdrSize = OMAGIC
  headers : HeadersSize + numSections coff * ScnhdrSize ≤ coff.length
  sections : Sound coff ((coffSections coff).filter Scnhdr.nonEmpty)

/-- Main memory has the raw data of some sections at their addresses and is zero
elsewhere. -/
structure Image (coff : List Byte) (placed : Scnhdr → Prop) (mainMemory : Buf) : Prop where
  bytes : ∀ s, placed s → ∀ k < s.size.toNat,
    mainMemory (s.paddr.toNat + k) = bufferOf coff (s.scnptr.toNat + k)
  zeros : ∀ a < MemorySize, (∀ s, placed s → ¬ s.Covers a) → mainMemory a = 0

section Files

/-- The files of a conversion and the descriptors through which they are open. -/
structure Job where
  coff : List Byte
  noffName : List Byte
  fdIn : Nat
  fdOut : Nat
  input : Nat
  output : Nat
  small : coff.length ≤ OFF_MAX
  fds_ne : fdOut ≠ fdIn
  inodes_ne : output ≠ input

variable {job : Job} {h : Host} {inPos outPos : Nat} {out : List Byte}

/-- The descriptors are at these offsets and the output holds these bytes. -/
structure Job.At (job : Job) (h : Host) (inPos : Nat) (out : List Byte) (outPos : Nat) : Prop where
  isOpen : h.fds job.fdIn = some ⟨job.input, inPos, true, false⟩
  isOpenOut : h.fds job.fdOut = some ⟨job.output, outPos, true, true⟩
  bytes : h.contents job.input = job.coff
  bytesOut : h.contents job.output = out
  named : h.names job.noffName = some job.output

namespace Job

theorem At.moveIn (files : job.At h inPos out outPos) (d : Descriptor) (pos : Nat)
    (same : d = ⟨job.input, inPos, true, false⟩) :
    job.At (h.moveTo job.fdIn d pos) pos out outPos where
  isOpen := by rw [Host.moveTo_self, same]
  isOpenOut := by rw [Host.moveTo_other pos job.fds_ne, files.isOpenOut]
  bytes := files.bytes
  bytesOut := files.bytesOut
  named := files.named

theorem At.seekIn (files : job.At h inPos out outPos) {offset : Nat} (max : offset ≤ OFF_MAX) :
    job.At (h.lseek job.fdIn offset .set).2 offset out outPos := by
  rw [Host.lseek_open files.isOpen (rfl : h.seekTarget _ offset .set = offset) max]
  exact files.moveIn _ offset rfl

theorem At.read (files : job.At h inPos out outPos) {n : Nat}
    (inside : inPos + n ≤ job.coff.length) :
    ∃ h', Read h job.fdIn n = .ok ((job.coff.drop inPos).take n, h') ∧
      job.At h' (inPos + n) out outPos := by
  have data : h.available ⟨job.input, inPos, true, false⟩ n = (job.coff.drop inPos).take n := by
    unfold Host.available
    rw [files.bytes]
  have transfer := Host.read_open files.isOpen rfl n
  rw [data, length_slice inside] at transfer
  refine ⟨_, ?_, files.moveIn ⟨job.input, inPos, true, false⟩ (inPos + n) rfl⟩
  unfold Read
  rw [transfer]
  exact if_pos rfl

theorem At.seekOut (files : job.At h inPos out outPos) {offset : Nat} (max : offset ≤ OFF_MAX) :
    job.At (Coff2noff.seekOut h (some job.fdOut) offset) inPos out offset := by
  unfold Coff2noff.seekOut
  simp only
  rw [Host.lseek_open files.isOpenOut (rfl : h.seekTarget _ offset .set = offset) max]
  exact {
    isOpen := by rw [Host.moveTo_other offset job.fds_ne.symm, files.isOpen]
    isOpenOut := Host.moveTo_self offset
    bytes := files.bytes
    bytesOut := files.bytesOut
    named := files.named }

theorem At.write (files : job.At h inPos out outPos) (buffer : Buf) {n : Nat} (positive : 0 < n)
    (max : outPos + n ≤ OFF_MAX) :
    ∃ h', Write h (some job.fdOut) buffer n = .ok h' ∧
      job.At h' inPos (Host.overwrite out outPos ((List.range n).map buffer)) (outPos + n) := by
  have accepted : ¬ ((⟨job.output, outPos, true, true⟩ : Descriptor).writable = false ∨
      (n : Int) < 0 ∨ (outPos : Int) + n > OFF_MAX) := by
    rw [not_or]
    exact ⟨by simp, by omega⟩
  have nonzero : ¬ (n : Int) = 0 := by omega
  refine ⟨{ h.moveTo job.fdOut ⟨job.output, outPos, true, true⟩ (outPos + n) with
    contents := Function.update h.contents job.output
      (Host.overwrite out outPos ((List.range n).map buffer)) }, ?_, ?_⟩
  · unfold Write Coff2noff.write Host.write
    simp only [files.isOpenOut, files.bytesOut, if_neg accepted, if_neg nonzero, Int.toNat_natCast,
      if_true]
  · exact {
      isOpen := by
        rw [← files.isOpen]
        exact Host.moveTo_other (outPos + n) job.fds_ne.symm
      isOpenOut := Host.moveTo_self (outPos + n)
      bytes := by
        rw [← files.bytes]
        exact Function.update_of_ne job.inodes_ne.symm _ _
      bytesOut := Function.update_self _ _ _
      named := files.named }

end Job

end Files

section Sections

variable {job : Job} {coff out : List Byte} {s : Scnhdr} {done rest : List Scnhdr} {p : Progress}

/-- The raw data of the section is in the output from offset `start` on, behind the place of
the header. -/
structure Stored (coff out : List Byte) (s : Scnhdr) (start : Nat) : Prop where
  behind : NoffHeaderSize ≤ start
  inside : start + s.size.toNat ≤ out.length
  bytes : ∀ k < s.size.toNat, bufferOf out (start + k) = bufferOf coff (s.scnptr.toNat + k)

/-- The segment is that of the section of its kind, or empty if there is none. -/
def Represents (coff out : List Byte) (sections : List Scnhdr) (kind : SegmentKind)
    (segment : Segment) : Prop :=
  (segment.size = 0 ∧ ∀ s ∈ sections, s.kind ≠ some kind) ∨
    ∃ s ∈ sections, s.kind = some kind ∧ segment.virtualAddr = s.paddr ∧ segment.size = s.size ∧
      (kind ≠ .uninitData → Stored coff out s segment.inFileAddr.toNat)

/-- The bytes of all segments. -/
def total (noffH : NoffHeader) : Nat :=
  noffH.code.size.toNat + noffH.readonlyData.size.toNat + noffH.initData.size.toNat +
    noffH.uninitData.size.toNat

/-- The state of the loop after the non-empty sections `done`. -/
structure Converted (job : Job) (done : List Scnhdr) (p : Progress) (out : List Byte) : Prop where
  files : ∃ inPos, job.At p.host inPos out p.inNoffFile.toNat
  behind : NoffHeaderSize ≤ p.inNoffFile.toNat
  room : p.inNoffFile.toNat ≤ NoffHeaderSize + (done.map fun s => s.size.toNat).sum
  ends : out.length ≤ p.inNoffFile.toNat
  magic : p.noffH.noffMagic = NOFFMAGIC
  sizes : total p.noffH = (done.map fun s => s.size.toNat).sum
  segments : ∀ kind, Represents job.coff out done kind (p.noffH.segment kind)

/-- Bytes that were stored stay when others are written behind them or before them. -/
theorem Stored.overwrite {start : Nat} (stored : Stored coff out s start) {offset : Nat}
    {data : List Byte} (other : out.length ≤ offset ∨ offset + data.length ≤ NoffHeaderSize) :
    Stored coff (Host.overwrite out offset data) s start where
  behind := stored.behind
  inside := by
    have := stored.inside
    rw [Host.overwrite_length]
    omega
  bytes k hk := by
    have inside := stored.inside
    have behind := stored.behind
    rw [← stored.bytes k hk]
    unfold bufferOf
    rw [Host.overwrite_getD, if_neg (by omega)]

theorem Represents.overwrite {kind : SegmentKind} {segment : Segment}
    (represents : Represents coff out done kind segment) {offset : Nat} {data : List Byte}
    (other : out.length ≤ offset ∨ offset + data.length ≤ NoffHeaderSize) :
    Represents coff (Host.overwrite out offset data) done kind segment := by
  rcases represents with empty | ⟨s, mem, ofKind, address, size, stored⟩
  · exact .inl empty
  · exact .inr ⟨s, mem, ofKind, address, size, fun copied => (stored copied).overwrite other⟩

/-- A segment of another kind than the next section. -/
theorem Represents.append {kind : SegmentKind} {segment : Segment}
    (represents : Represents coff out done kind segment) (other : s.kind ≠ some kind) :
    Represents coff out (done ++ [s]) kind segment := by
  rcases represents with ⟨empty, none⟩ | ⟨t, mem, found⟩
  · refine .inl ⟨empty, fun t mem => ?_⟩
    rcases List.mem_append.mp mem with old | new
    · exact none t old
    · rw [List.mem_singleton.mp new]
      exact other
  · exact .inr ⟨t, List.mem_append_left _ mem, found⟩

theorem total_setSegment {noffH : NoffHeader} {kind : SegmentKind}
    (empty : (noffH.segment kind).size = 0) (segment : Segment) :
    total (noffH.setSegment segment kind) = total noffH + segment.size.toNat := by
  have none : (noffH.segment kind).size.toNat = 0 := by rw [empty]; rfl
  cases kind <;>
    simp only [NoffHeader.segment] at none <;>
    simp only [total, NoffHeader.setSegment] <;>
    omega

/-- The header after a section, if its own segment is right. -/
theorem Represents.setSegment {noffH : NoffHeader} {kind : SegmentKind} {segment : Segment}
    (segments : ∀ kind, Represents coff out done kind (noffH.segment kind))
    (ofKind : s.kind = some kind) (own : Represents coff out (done ++ [s]) kind segment)
    (other : SegmentKind) :
    Represents coff out (done ++ [s]) other ((noffH.setSegment segment kind).segment other) := by
  rw [NoffHeader.segment_setSegment]
  split
  next same =>
    rw [same]
    exact own
  next different =>
    apply (segments other).append
    rw [ofKind]
    intro same
    exact different (Option.some.inj same).symm

theorem Converted.empty (converted : Converted job done p out) {kind : SegmentKind}
    (first : ∀ t ∈ done, t.kind ≠ some kind) : (p.noffH.segment kind).size = 0 := by
  rcases converted.segments kind with ⟨empty, _⟩ | ⟨t, mem, ofKind, _⟩
  · exact empty
  · exact absurd ofKind (first t mem)

theorem sum_append (done : List Scnhdr) (s : Scnhdr) :
    ((done ++ [s]).map fun s => s.size.toNat).sum =
      (done.map fun s => s.size.toNat).sum + s.size.toNat := by
  rw [List.map_append, List.sum_append, List.map_singleton, List.sum_singleton]

theorem Scnhdr.size_pos (nonzero : s.size ≠ 0) : 0 < s.size.toNat := by
  apply Nat.pos_of_ne_zero
  intro zero
  exact nonzero (BitVec.eq_of_toNat_eq zero)

/-- The raw data of a section. -/
def rawData (coff : List Byte) (s : Scnhdr) : List Byte :=
  (coff.drop s.scnptr.toNat).take s.size.toNat

theorem rawData_length (raw : s.scnptr.toNat + s.size.toNat ≤ coff.length) :
    (rawData coff s).length = s.size.toNat :=
  length_slice raw

theorem range_bufferOf (data : List Byte) :
    (List.range data.length).map (bufferOf data) = data := by
  apply List.ext_getElem
  · rw [List.length_map, List.length_range]
  · intro i _ hi
    simp only [bufferOf, List.getElem_map, List.getElem_range]
    rw [List.getD_eq_getElem?_getD, List.getElem?_eq_getElem hi]
    rfl

/-- The raw data of a section goes to the end of the output. -/
theorem copySection_writes {inPos : Nat} (files : job.At p.host inPos out p.inNoffFile.toNat)
    (nonzero : s.size ≠ 0) (raw : s.scnptr.toNat + s.size.toNat ≤ job.coff.length)
    (max : p.inNoffFile.toNat + s.size.toNat ≤ OFF_MAX) (kind : SegmentKind) :
    ∃ h, copySection job.fdIn (some job.fdOut) p s kind =
        .ok ⟨h, p.noffH.setSegment ⟨s.paddr, p.inNoffFile, s.size⟩ kind, p.inNoffFile + s.size⟩ ∧
      job.At h (s.scnptr.toNat + s.size.toNat)
        (Host.overwrite out p.inNoffFile.toNat (rawData job.coff s))
        (p.inNoffFile.toNat + s.size.toNat) := by
  have small := job.small
  have size : s.size.toInt = s.size.toNat := toInt_small (by omega)
  have pointer : s.scnptr.toInt = s.scnptr.toNat := toInt_small (by omega)
  have sought := files.seekIn (show s.scnptr.toNat ≤ OFF_MAX by omega)
  obtain ⟨h₁, reads, files₁⟩ := sought.read raw
  obtain ⟨h₂, writes, files₂⟩ :=
    files₁.write (bufferOf (rawData job.coff s)) (Scnhdr.size_pos nonzero) max
  refine ⟨h₂, ?_, ?_⟩
  · unfold copySection
    simp only [pointer, size, reads, Exec.ok_bind]
    rw [show (job.coff.drop s.scnptr.toNat).take s.size.toNat = rawData job.coff s from rfl, writes]
    rfl
  · have data := range_bufferOf (rawData job.coff s)
    rw [rawData_length raw] at data
    rwa [data] at files₂

/-- The loop after a section that was copied. -/
theorem copySection_converted (converted : Converted job done p out) {kind : SegmentKind}
    (ofKind : s.kind = some kind) (first : ∀ t ∈ done, t.kind ≠ some kind) (nonzero : s.size ≠ 0)
    (raw : s.scnptr.toNat + s.size.toNat ≤ job.coff.length)
    (max : NoffHeaderSize + ((done ++ [s]).map fun s => s.size.toNat).sum ≤ OFF_MAX) :
    ∃ p' out', copySection job.fdIn (some job.fdOut) p s kind = .ok p' ∧
      Converted job (done ++ [s]) p' out' := by
  rw [sum_append] at max
  have room := converted.room
  have ends := converted.ends
  have behind := converted.behind
  have length := rawData_length raw
  obtain ⟨inPos, files⟩ := converted.files
  obtain ⟨h, copies, written⟩ := copySection_writes files nonzero raw (by omega) kind
  have next : (p.inNoffFile + s.size).toNat = p.inNoffFile.toNat + s.size.toNat := by
    unfold OFF_MAX at max
    rw [BitVec.toNat_add]
    omega
  have longer : (Host.overwrite out p.inNoffFile.toNat (rawData job.coff s)).length =
      p.inNoffFile.toNat + s.size.toNat := by
    rw [Host.overwrite_length, length]
    omega
  have stored : Stored job.coff (Host.overwrite out p.inNoffFile.toNat (rawData job.coff s)) s
      p.inNoffFile.toNat := by
    refine ⟨behind, by omega, fun k hk => ?_⟩
    rw [← bufferOf_slice job.coff hk]
    unfold bufferOf
    rw [Host.overwrite_getD, if_pos (by omega), Nat.add_sub_cancel_left]
    rfl
  refine ⟨_, Host.overwrite out p.inNoffFile.toNat (rawData job.coff s), copies, ?_⟩
  exact {
    files := ⟨_, by rw [next]; exact written⟩
    behind := by rw [next]; omega
    room := by rw [next, sum_append]; omega
    ends := by rw [next, longer]
    magic := by rw [NoffHeader.setSegment_magic]; exact converted.magic
    sizes := by rw [total_setSegment (converted.empty first), sum_append, converted.sizes]
    segments := Represents.setSegment
      (fun other => (converted.segments other).overwrite (.inl ends)) ofKind
      (.inr ⟨s, List.mem_append_right _ List.mem_cons_self, ofKind, rfl, rfl, fun _ => stored⟩) }

/-- The loop after the section of uninitialized data. -/
theorem noteBss_converted (converted : Converted job done p out)
    (ofKind : s.kind = some .uninitData) (first : ∀ t ∈ done, t.kind ≠ some .uninitData) :
    ∃ p', noteBss p s = .ok p' ∧ Converted job (done ++ [s]) p' out := by
  -- There was no such section before, so the test for `.bss` and `.sbss` is not made.
  have empty : p.noffH.uninitData.size = 0 := converted.empty first
  let bss : Segment := { p.noffH.uninitData with virtualAddr := s.paddr, size := s.size }
  have sizes := total_setSegment (converted.empty first) bss
  refine ⟨{ p with noffH := p.noffH.setSegment bss .uninitData }, ?_, ?_⟩
  · unfold noteBss
    simp only [empty, ne_eq, not_true_eq_false, if_false]
    rfl
  · exact {
      files := converted.files
      behind := converted.behind
      room := by
        rw [sum_append]
        exact Nat.le_trans converted.room (by omega)
      ends := converted.ends
      magic := converted.magic
      sizes := by rw [sizes, sum_append, converted.sizes]
      segments := Represents.setSegment converted.segments ofKind
        (.inr ⟨s, List.mem_append_right _ List.mem_cons_self, ofKind, rfl, rfl,
          fun copied => absurd rfl copied⟩) }

theorem Sound.first (sound : Sound coff (done ++ s :: rest)) : ∀ t ∈ done, t.kind ≠ s.kind := by
  intro t mem
  exact (List.pairwise_append.mp sound.single).2.2 t mem s List.mem_cons_self

theorem Sound.max (sound : Sound coff (done ++ s :: rest)) :
    NoffHeaderSize + ((done ++ [s]).map fun s => s.size.toNat).sum ≤ OFF_MAX := by
  have fits := sound.fits
  rw [List.append_cons, List.map_append, List.sum_append] at fits
  have memory : NoffHeaderSize + MemorySize ≤ OFF_MAX := by decide
  omega

/-- One turn of the loop, for a section that is not empty. -/
theorem convertSection_converted (converted : Converted job done p out)
    (sound : Sound job.coff (done ++ s :: rest)) (nonzero : s.size ≠ 0) :
    ∃ p' out', convertSection job.fdIn (some job.fdOut) p s = .ok p' ∧
      Converted job (done ++ [s]) p' out' := by
  have mem : s ∈ done ++ s :: rest := List.mem_append_right _ List.mem_cons_self
  have first := sound.first
  unfold convertSection
  rw [if_neg nonzero]
  cases ofKind : s.kind with
  | none => exact absurd ofKind (sound.known s mem)
  | some kind =>
    rw [ofKind] at first
    by_cases bss : kind = .uninitData
    · subst bss
      obtain ⟨p', run, after⟩ := noteBss_converted converted ofKind first
      exact ⟨p', out, run, after⟩
    · have raw := sound.rawData s mem (by rw [ofKind]; exact fun same => bss (Option.some.inj same))
      obtain ⟨p', out', run, after⟩ :=
        copySection_converted converted ofKind first nonzero raw sound.max
      refine ⟨p', out', ?_, after⟩
      rw [← run]
      cases kind <;> first | rfl | exact absurd rfl bss

/-- The whole loop; empty sections leave everything as it is. -/
theorem convertSections_converted (rest : List Scnhdr) (converted : Converted job done p out)
    (sound : Sound job.coff (done ++ rest.filter Scnhdr.nonEmpty)) :
    ∃ p' out', convertSections job.fdIn (some job.fdOut) p rest = .ok p' ∧
      Converted job (done ++ rest.filter Scnhdr.nonEmpty) p' out' := by
  -- `done` grows as the list shrinks, so that what is sound is always the whole list.
  induction rest generalizing done p out with
  | nil =>
    refine ⟨p, out, rfl, ?_⟩
    rw [List.filter_nil, List.append_nil]
    exact converted
  | cons s rest ih =>
    unfold convertSections
    by_cases empty : s.size = 0
    · have skipped : (s :: rest).filter Scnhdr.nonEmpty = rest.filter Scnhdr.nonEmpty :=
        List.filter_cons_of_neg (by
          rw [Scnhdr.nonEmpty, decide_eq_true_iff]
          exact not_not.mpr empty)
      have same : convertSection job.fdIn (some job.fdOut) p s = .ok p := by
        unfold convertSection
        exact if_pos empty
      rw [skipped] at sound ⊢
      rw [same]
      exact ih converted sound
    · have kept : (s :: rest).filter Scnhdr.nonEmpty = s :: rest.filter Scnhdr.nonEmpty :=
        List.filter_cons_of_pos (decide_eq_true empty)
      rw [kept] at sound ⊢
      obtain ⟨p₁, out₁, run, after⟩ := convertSection_converted converted sound empty
      rw [List.append_cons] at sound ⊢
      rw [run]
      exact ih after sound

end Sections

section Output

variable {job : Job} {h : Host} {sections : List Scnhdr}

/-- The file that was written: the header, and behind it the bytes of the segments. -/
structure Output (big : Bool) (coff : List Byte) (sections : List Scnhdr) (out : List Byte)
    (noffH : NoffHeader) : Prop where
  header : ∀ i < NoffHeaderSize, bufferOf out i = (swapHeader big noffH).bytes big i
  long : NoffHeaderSize ≤ out.length
  small : out.length ≤ OFF_MAX
  magic : noffH.noffMagic = NOFFMAGIC
  sizes : total noffH = (sections.map fun s => s.size.toNat).sum
  segments : ∀ kind, Represents coff out sections kind (noffH.segment kind)

theorem startHeader_converted {inPos outPos : Nat} (files : job.At h inPos [] outPos)
    (garbage : NoffHeader) :
    Converted job [] ⟨seekOut h (some job.fdOut) NoffHeaderSize, startHeader garbage,
      BitVec.ofNat 32 NoffHeaderSize⟩ [] where
  files := ⟨inPos, files.seekOut (by decide)⟩
  behind := show NoffHeaderSize ≤ (BitVec.ofNat 32 NoffHeaderSize).toNat by decide
  room := show (BitVec.ofNat 32 NoffHeaderSize).toNat ≤ NoffHeaderSize by decide
  ends := Nat.zero_le _
  magic := rfl
  sizes := rfl
  segments kind := by
    refine .inl ⟨?_, fun s none => by cases none⟩
    cases kind <;> rfl

/-- The header is written last, to the place that was left for it. -/
theorem convertBody_output {inPos outPos : Nat} (files : job.At h inPos [] outPos) (big : Bool)
    (garbage : NoffHeader) (sound : Sound job.coff (sections.filter Scnhdr.nonEmpty)) :
    ∃ h' inPos' outPos' out noffH,
      convertBody big job.fdIn (some job.fdOut) garbage h sections = .ok h' ∧
      job.At h' inPos' out outPos' ∧
      Output big job.coff (sections.filter Scnhdr.nonEmpty) out noffH := by
  obtain ⟨p, body, run, converted⟩ :=
    convertSections_converted sections (startHeader_converted files garbage) sound
  rw [List.nil_append] at converted
  obtain ⟨inPos₁, files₁⟩ := converted.files
  have sought := files₁.seekOut (show 0 ≤ OFF_MAX by decide)
  obtain ⟨h₂, writes, files₂⟩ := sought.write ((swapHeader big p.noffH).bytes big)
    (show 0 < NoffHeaderSize by decide) (by decide)
  have length : ((List.range NoffHeaderSize).map ((swapHeader big p.noffH).bytes big)).length =
      NoffHeaderSize := by
    rw [List.length_map, List.length_range]
  refine ⟨h₂, inPos₁, 0 + NoffHeaderSize, _, p.noffH, ?_, files₂, ?_⟩
  · unfold convertBody
    simp only [run, Exec.ok_bind]
    exact writes
  · have room := converted.room
    have ends := converted.ends
    have fits := sound.fits
    have memory : NoffHeaderSize + MemorySize ≤ OFF_MAX := by decide
    exact {
      header := by
        intro i hi
        unfold bufferOf
        rw [Host.overwrite_getD, length, if_pos (by omega), Nat.sub_zero,
          List.getD_eq_getElem?_getD, List.getElem?_map, List.getElem?_range hi]
        rfl
      long := by
        rw [Host.overwrite_length, length]
        omega
      small := by
        rw [Host.overwrite_length, length]
        omega
      magic := converted.magic
      sizes := converted.sizes
      segments := fun kind => (converted.segments kind).overwrite
        (.inr (by rw [length, Nat.zero_add])) }

theorem sectionAt_host (big : Bool) (b : Buf) (i : Nat) :
    sectionAt big b i = sectionAt false b i := by
  unfold sectionAt
  simp only [wordToHost_hostWord]

/-- A section header depends on its own bytes only. -/
theorem sectionAt_congr {b b' : Buf} {i : Nat}
    (same : ∀ k < ScnhdrSize, b (ScnhdrSize * i + k) = b' (ScnhdrSize * i + k)) :
    sectionAt false b i = sectionAt false b' i := by
  have field : ∀ offset, offset + 4 ≤ ScnhdrSize →
      word b (ScnhdrSize * i + offset) = word b' (ScnhdrSize * i + offset) := by
    intro offset inside
    apply word_congr
    intro a low high
    obtain ⟨k, rfl⟩ := Nat.exists_eq_add_of_le low
    rw [Nat.add_assoc]
    exact same (offset + k) (by omega)
  have name : ((List.range 8).map fun k => b (ScnhdrSize * i + k)) =
      (List.range 8).map fun k => b' (ScnhdrSize * i + k) := by
    apply List.map_congr_left
    intro k mem
    have inside := List.mem_range.mp mem
    exact same k (Nat.lt_trans inside (by decide))
  unfold sectionAt
  simp only [wordToHost_hostWord, name, field 8 (by decide), field 16 (by decide),
    field 20 (by decide)]

/-- The section headers that are read are those of the file, on either host. -/
theorem sections_read (coff : List Byte) (big : Bool) :
    ((List.range (numSections coff)).map (sectionAt big
      (bufferOf ((coff.drop HeadersSize).take (numSections coff * ScnhdrSize))))) =
    coffSections coff := by
  unfold coffSections
  apply List.map_congr_left
  intro i mem
  have inside : i + 1 ≤ numSections coff := List.mem_range.mp mem
  have bound := Nat.mul_le_mul_right ScnhdrSize inside
  rw [sectionAt_host]
  apply sectionAt_congr
  intro k hk
  apply bufferOf_slice
  rw [Nat.add_mul, Nat.mul_comm i] at bound
  omega

theorem convert_output (files : job.At h 0 [] 0) (wellFormed : WellFormed job.coff) (big : Bool)
    (garbage : NoffHeader) :
    ∃ h' inPos outPos out noffH, convert big job.fdIn (some job.fdOut) garbage h = .ok h' ∧
      job.At h' inPos out outPos ∧
      Output big job.coff ((coffSections job.coff).filter Scnhdr.nonEmpty) out noffH := by
  have headers := wellFormed.headers
  have size : HeadersSize = FilehdrSize + AouthdrSize := rfl
  obtain ⟨h₁, fileh, files₁⟩ := files.read (show 0 + FilehdrSize ≤ job.coff.length by omega)
  rw [Nat.zero_add] at files₁
  obtain ⟨h₂, systemh, files₂⟩ :=
    files₁.read (show FilehdrSize + AouthdrSize ≤ job.coff.length by omega)
  rw [← size] at files₂
  obtain ⟨h₃, read, files₃⟩ := files₂.read headers
  obtain ⟨h', inPos, outPos, out, noffH, run, after, output⟩ :=
    convertBody_output files₃ big garbage wellFormed.sections
  refine ⟨h', inPos, outPos, out, noffH, ?_, after, output⟩
  have field : ∀ start n a, a + 2 ≤ n →
      short (bufferOf ((job.coff.drop start).take n)) a = short (bufferOf job.coff) (start + a) := by
    intro start n a inside
    unfold short
    rw [bufferOf_slice job.coff (by omega), bufferOf_slice job.coff (by omega), Nat.add_assoc]
  have mipsel := field 0 FilehdrSize 0 (by decide)
  have number := field 0 FilehdrSize 2 (by decide)
  have omagic := field FilehdrSize AouthdrSize 0 (by decide)
  rw [wellFormed.mipsel] at mipsel
  rw [Nat.add_zero, wellFormed.omagic] at omagic
  rw [← sections_read job.coff big] at run
  unfold convert
  simp only [fileh, Exec.ok_bind, shortToHost_hostShort, mipsel, number, ne_eq, not_true_eq_false,
    if_false, systemh, omagic]
  rw [Nat.zero_add, show (short (bufferOf job.coff) 2).toNat = numSections job.coff from rfl, read]
  exact run

/-- What the converter finds: a COFF file that it may open, and the name of another file
that it may write, or of none yet. -/
structure Ready (h : Host) (coff coffName noffName : List Byte) (fdIn fdOut : Nat) : Prop where
  input : ∃ inode < h.nextInode, h.names coffName = some inode ∧ h.contents inode = coff ∧
    h.names noffName ≠ some inode
  small : coff.length ≤ OFF_MAX
  unopened : h.fds fdIn = none
  unopenedOut : h.fds fdOut = none
  fds_ne : fdOut ≠ fdIn

variable {coff coffName noffName : List Byte} {fdIn fdOut : Nat}

/-- Both files are open and the output is empty. -/
theorem Ready.opens (ready : Ready h coff coffName noffName fdIn fdOut) :
    ∃ job : Job, ∃ h₁ h₂, job.coff = coff ∧ job.noffName = noffName ∧ job.fdIn = fdIn ∧
      job.fdOut = fdOut ∧ h.openFile coffName .readOnly (some fdIn) = (some fdIn, h₁) ∧
      h₁.openFile noffName .truncate (some fdOut) = (some fdOut, h₂) ∧ job.At h₂ 0 [] 0 := by
  obtain ⟨inode, old, named, bytes, other⟩ := ready.input
  have opens := Host.openFile_existing .readOnly (by decide) ready.unopened named
    (show (h.contents inode).length ≤ OFF_MAX by rw [bytes]; exact ready.small)
  let h₁ : Host := { h with
    fds := Function.update h.fds fdIn (some ⟨inode, 0, true, false⟩) }
  have unopened : h₁.fds fdOut = none :=
    (Function.update_of_ne ready.fds_ne _ _).trans ready.unopenedOut
  obtain ⟨output, h₂, creates, made, new, contents, fds⟩ :=
    Host.openFile_truncate noffName unopened
  have apart : output ≠ inode := by
    rcases new with found | fresh
    · exact fun same => other (found.trans (congrArg some same))
    · exact fun same => Nat.ne_of_lt old (same.symm.trans fresh)
  refine ⟨⟨coff, noffName, fdIn, fdOut, inode, output, ready.small, ready.fds_ne, apart⟩, h₁, h₂,
    rfl, rfl, rfl, rfl, opens, creates, ?_⟩
  exact {
    isOpen := by
      rw [fds, Function.update_of_ne ready.fds_ne.symm]
      exact Function.update_self _ _ _
    isOpenOut := by
      rw [fds]
      exact Function.update_self _ _ _
    bytes := by
      rw [contents, Function.update_of_ne apart.symm]
      exact bytes
    bytesOut := by
      rw [contents]
      exact Function.update_self _ _ _
    named := by
      rw [made]
      exact Function.update_self _ _ _ }

theorem close_files (h : Host) (fd : Option Nat) :
    (close h fd).names = h.names ∧ (close h fd).contents = h.contents := by
  cases fd with
  | none => exact ⟨rfl, rfl⟩
  | some fd =>
    unfold close Host.close
    simp only
    split <;> exact ⟨rfl, rfl⟩

/-- The converter writes the NOFF file of a COFF file. -/
theorem main_output (ready : Ready h coff coffName noffName fdIn fdOut)
    (wellFormed : WellFormed coff) (big : Bool) (garbage : NoffHeader) :
    ∃ h' inode out noffH,
      main big coffName noffName (some fdIn) (some fdOut) garbage h = .ok h' ∧
      h'.names noffName = some inode ∧ h'.contents inode = out ∧
      Output big coff ((coffSections coff).filter Scnhdr.nonEmpty) out noffH := by
  obtain ⟨job, h₁, h₂, rfl, rfl, rfl, rfl, opens, creates, files⟩ := ready.opens
  obtain ⟨h₃, inPos, outPos, out, noffH, run, after, output⟩ :=
    convert_output files wellFormed big garbage
  refine ⟨close (close h₃ (some job.fdIn)) (some job.fdOut), job.output, out, noffH, ?_, ?_, ?_,
    output⟩
  · unfold main
    simp only [opens, creates, run, Exec.ok_bind]
  · rw [(close_files _ _).1, (close_files _ _).1, after.named]
  · rw [(close_files _ _).2, (close_files _ _).2, after.bytesOut]

end Output

section Loaded

variable {coff out : List Byte} {sections : List Scnhdr} {kind : SegmentKind} {segment : Segment}
  {kinds : List SegmentKind} {mainMemory : Buf}

/-- A section of one of these kinds. -/
def OfKinds (sections : List Scnhdr) (kinds : List SegmentKind) (s : Scnhdr) : Prop :=
  s ∈ sections ∧ ∃ kind ∈ kinds, s.kind = some kind

theorem Sound.unique (sound : Sound coff sections) {s t : Scnhdr} (hs : s ∈ sections)
    (ht : t ∈ sections) (same : s.kind = t.kind) : s = t := by
  have symm : Std.Symm fun s t : Scnhdr => s.kind ≠ t.kind := ⟨fun _ _ => Ne.symm⟩
  by_contra different
  exact sound.single.forall hs ht different same

theorem Sound.disjoint (sound : Sound coff sections) {s t : Scnhdr} (hs : s ∈ sections)
    (ht : t ∈ sections) (different : s ≠ t) : s.Apart t := by
  have symm : Std.Symm Scnhdr.Apart := ⟨fun _ _ => Or.symm⟩
  exact sound.apart.forall hs ht different

theorem Represents.placeable (represents : Represents coff out sections kind segment)
    (sound : Sound coff sections) (copied : kind ≠ .uninitData) : segment.Placeable out := by
  rcases represents with ⟨empty, _⟩ | ⟨s, mem, _, address, size, stored⟩
  · exact .inl empty
  · rw [Segment.Placeable, address, size]
    exact .inr ⟨(stored copied).inside, sound.inMemory s mem⟩

theorem Image.new (coff : List Byte) (sections : List Scnhdr) (numPages : Mips.Word)
    (mainMemory : Buf) :
    Image coff (OfKinds sections []) (AddrSpace.new numPages mainMemory).2 where
  bytes s placed := by
    obtain ⟨_, kind, none, _⟩ := placed
    cases none
  zeros a inside _ := by
    change blit mainMemory 0 (fun _ => 0) MemorySize a = 0
    rw [blit_inside (Nat.zero_le a) (by omega)]

/-- One more segment is put in its place. -/
theorem Image.place (image : Image coff (OfKinds sections kinds) mainMemory)
    (sound : Sound coff sections) (represents : Represents coff out sections kind segment)
    (copied : kind ≠ .uninitData) :
    Image coff (OfKinds sections (kind :: kinds)) (segment.place out mainMemory) := by
  have fewer : ∀ s, OfKinds sections kinds s → OfKinds sections (kind :: kinds) s := by
    intro s placed
    obtain ⟨mem, other, listed, ofKind⟩ := placed
    exact ⟨mem, other, List.mem_cons_of_mem _ listed, ofKind⟩
  rcases represents with ⟨empty, none⟩ | ⟨s, mem, ofKind, address, size, stored⟩
  · rw [place_empty empty]
    refine ⟨fun t placed => ?_, fun a inside free => ?_⟩
    · obtain ⟨memT, other, listed, ofOther⟩ := placed
      rcases List.mem_cons.mp listed with same | listed
      · exact absurd (same ▸ ofOther) (none t memT)
      · exact image.bytes t ⟨memT, other, listed, ofOther⟩
    · exact image.zeros a inside fun t placed => free t (fewer t placed)
  · unfold Segment.place
    rw [address, size]
    have stored := stored copied
    refine ⟨fun t placed k hk => ?_, fun a inside free => ?_⟩
    · obtain ⟨memT, other, listed, ofOther⟩ := placed
      -- The section itself, or one that was placed before and is disjoint from it.
      by_cases same : t = s
      · subst same
        rw [blit_inside (by omega) (by omega), Nat.add_sub_cancel_left, stored.bytes k hk]
      · have apart := sound.disjoint memT mem same
        have old : other ∈ kinds := by
          rcases List.mem_cons.mp listed with equal | old
          · exact absurd (sound.unique memT mem (by rw [ofOther, ofKind, equal])) same
          · exact old
        unfold Scnhdr.Apart at apart
        rw [blit_outside (by omega)]
        exact image.bytes t ⟨memT, other, old, ofOther⟩ k hk
    · have uncovered := free s ⟨mem, kind, List.mem_cons_self, ofKind⟩
      unfold Scnhdr.Covers at uncovered
      rw [blit_outside (by omega)]
      exact image.zeros a inside fun t placed => free t (fewer t placed)

theorem Output.loadable {written : Bool} {noffH : NoffHeader}
    (output : Output written coff sections out noffH) (sound : Sound coff sections) (big : Bool) :
    Loadable big out noffH where
  small := output.small
  long := output.long
  header b same := readHeader_written written big output.magic fun i hi =>
    (same i hi).trans (output.header i hi)
  magic := output.magic
  fits := by
    have sizes := output.sizes
    have fits := sound.fits
    unfold total at sizes
    omega
  code := (output.segments .code).placeable sound (by decide)
  initData := (output.segments .initData).placeable sound (by decide)
  readonlyData := (output.segments .readonlyData).placeable sound (by decide)

/-- A section of code, data or read-only data. -/
def loaded (coff : List Byte) (s : Scnhdr) : Prop :=
  s ∈ coffSections coff ∧
    (s.kind = some .code ∨ s.kind = some .initData ∨ s.kind = some .readonlyData)

/-- The image of the sections that are not empty is the image of all. -/
theorem Image.all (image : Image coff (OfKinds ((coffSections coff).filter Scnhdr.nonEmpty)
      [.readonlyData, .initData, .code]) mainMemory) :
    Image coff (loaded coff) mainMemory where
  bytes s placed k hk := by
    have nonEmpty : s.nonEmpty = true := by
      apply decide_eq_true
      intro empty
      rw [empty] at hk
      exact absurd hk (Nat.not_lt_zero k)
    refine image.bytes s ⟨List.mem_filter.mpr ⟨placed.1, nonEmpty⟩, ?_⟩ k hk
    rcases placed.2 with code | initData | readonlyData
    · exact ⟨.code, by decide, code⟩
    · exact ⟨.initData, by decide, initData⟩
    · exact ⟨.readonlyData, by decide, readonlyData⟩
  zeros a inside free := by
    refine image.zeros a inside fun s placed => free s ⟨(List.mem_filter.mp placed.1).1, ?_⟩
    obtain ⟨_, kind, listed, ofKind⟩ := placed
    rw [ofKind]
    cases kind with
    | code => exact .inl rfl
    | initData => exact .inr (.inl rfl)
    | readonlyData => exact .inr (.inr rfl)
    | uninitData => exact absurd listed (by decide)

/-- A COFF file that was converted and is loaded, by any hosts: main memory is its image. The
loader runs in a process of its own, which has other descriptors and the same files. -/
theorem load_converted (wellFormed : WellFormed coff) {h : Host} {coffName noffName : List Byte}
    {fdIn fdOut : Nat} (ready : Ready h coff coffName noffName fdIn fdOut)
    (written big : Bool) (garbage : NoffHeader) :
    ∃ h₁, main written coffName noffName (some fdIn) (some fdOut) garbage h = .ok h₁ ∧
      ∀ (h₂ : Host) (fd : Nat), h₂.names = h₁.names → h₂.contents = h₁.contents →
      h₂.fds fd = none → ∀ (numPages : Mips.Word) (type : Int) (stack memory : Buf),
      ∃ space' memory' h₃,
        (AddrSpace.new numPages memory).1.load big noffName (some fd) type stack
          (AddrSpace.new numPages memory).2 h₂ = .ok (true, space', memory', h₃) ∧
        Image coff (loaded coff) memory' := by
  have sound := wellFormed.sections
  obtain ⟨h₁, inode, out, noffH, run, named, contents, output⟩ :=
    main_output ready wellFormed written garbage
  refine ⟨h₁, run, fun h₂ fd names bytes unopened numPages type stack memory => ?_⟩
  rw [← names] at named
  rw [← bytes] at contents
  obtain ⟨h₃, loads⟩ := load_places (output.loadable sound big) named contents unopened
    (AddrSpace.new numPages memory).1 type stack (AddrSpace.new numPages memory).2
  refine ⟨_, _, h₃, loads, Image.all ?_⟩
  have code := (Image.new coff _ numPages memory).place sound (output.segments .code) (by decide)
  have initData := code.place sound (output.segments .initData) (by decide)
  exact initData.place sound (output.segments .readonlyData) (by decide)

end Loaded

/-- A word in little-endian order. -/
def wordBytes (x : Nat) : List Byte :=
  [BitVec.ofNat 8 x, BitVec.ofNat 8 (x / 256), BitVec.ofNat 8 (x / 65536),
    BitVec.ofNat 8 (x / 16777216)]

/-- The bytes of a section header. -/
def scnhdrBytes (name : List Char) (paddr size scnptr : Nat) : List Byte :=
  Kernel.nameOf name ++ List.replicate (8 - name.length) 0 ++ wordBytes paddr ++ wordBytes paddr ++
    wordBytes size ++ wordBytes scnptr ++ List.replicate 16 0

/-- A COFF file with its data before its code, an empty section of an unknown kind between
them and uninitialized data at the end. -/
def smallCoff : List Byte :=
  [0x62, 0x01, 4, 0] ++ List.replicate 16 0 ++ [0x07, 0x01] ++ List.replicate 54 0 ++
    scnhdrBytes ['.', 'd', 'a', 't', 'a'] 300 2 236 ++
    scnhdrBytes ['.', 's', 'd', 'a', 't', 'a'] 400 0 0 ++
    scnhdrBytes ['.', 't', 'e', 'x', 't'] 0 3 238 ++
    scnhdrBytes ['.', 'b', 's', 's'] 500 64 0 ++ [1, 2, 3, 4, 5]

theorem smallCoff_wellFormed : WellFormed smallCoff where
  mipsel := by decide +kernel
  omagic := by decide +kernel
  headers := by decide +kernel
  sections := {
    known := by decide +kernel
    single := by decide +kernel
    apart := by decide +kernel
    inMemory := by decide +kernel
    rawData := by decide +kernel
    fits := by decide +kernel }

/-- The COFF file is there under the name `a`. -/
def smallHost : Host where
  names name := if name = [97] then some 0 else none
  contents _ := smallCoff
  fds _ := none
  nextInode := 1

theorem smallHost_ready : Ready smallHost smallCoff [97] [98] 3 4 where
  input := ⟨0, by decide, rfl, rfl, by decide⟩
  small := by decide +kernel
  unopened := rfl
  unopenedOut := rfl
  fds_ne := by decide

/-- Written on a big-endian host and loaded on a little-endian one. -/
theorem load_converted_small :
    ∃ h₁, main true [97] [98] (some 3) (some 4)
        ⟨7, ⟨7, 7, 7⟩, ⟨7, 7, 7⟩, ⟨7, 7, 7⟩, ⟨7, 7, 7⟩⟩ smallHost = .ok h₁ ∧
      ∃ space memory h₃,
        (AddrSpace.new 0 fun _ => 7).1.load false [98] (some 5) 0 (fun _ => 7)
          (AddrSpace.new 0 fun _ => 7).2 { h₁ with fds := fun _ => none } =
            .ok (true, space, memory, h₃) ∧
        memory 301 = 2 ∧ memory 2 = 5 := by
  obtain ⟨h₁, run, after⟩ := load_converted smallCoff_wellFormed smallHost_ready true false
    ⟨7, ⟨7, 7, 7⟩, ⟨7, 7, 7⟩, ⟨7, 7, 7⟩, ⟨7, 7, 7⟩⟩
  obtain ⟨space, memory, h₃, loads, image⟩ :=
    after { h₁ with fds := fun _ => none } 5 rfl rfl rfl 0 0 (fun _ => 7) fun _ => 7
  refine ⟨h₁, run, space, memory, h₃, loads, ?_, ?_⟩
  · exact image.bytes (sectionAt false (fun k => bufferOf smallCoff (HeadersSize + k)) 0)
      ⟨by decide +kernel, by decide +kernel⟩ 1 (by decide +kernel)
  · exact image.bytes (sectionAt false (fun k => bufferOf smallCoff (HeadersSize + k)) 2)
      ⟨by decide +kernel, by decide +kernel⟩ 2 (by decide +kernel)

end NachOS.Coff2noff
