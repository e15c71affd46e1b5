import NachOS.Userprog.FileCalls
import NachOS.Userprog.Noff

/-!
# The converter (coff2noff/coff2noff.c, coff2noff/coff.h)

`coff2noff` reads the headers of a COFF file, copies the raw data of its sections behind
the place of the NOFF header in the order in which they come, notes down in the header
where each of them went, and writes the header last. The program is compiled for a
32-bit host, so that a `long` has four bytes and the structures have no padding.

Fields of the header that the program does not set are what happens to be on the stack
(`garbage`). The program tests the descriptor of the input twice and that of the output
never, so the output may be no file at all. On an error it removes the output and exits;
only the reason is kept.
-/
namespace NachOS.Coff2noff
open NachOS.Lib NachOS.Userprog NachOS.Stub

def MIPSELMAGIC : BitVec 16 := 0x0162

/-- 0407 in octal. -/
def OMAGIC : BitVec 16 := 0x0107

/-- `sizeof(struct filehdr)`. -/
def FilehdrSize : Nat := 20

/-- `sizeof(struct aouthdr)`. -/
def AouthdrSize : Nat := 56

/-- `sizeof(struct scnhdr)`. -/
def ScnhdrSize : Nat := 40

/-- Why the program gives up. -/
inductive Exit where
  | noInput
  | tooShort
  | unableToWrite
  | notMipsel
  | notOmagic
  | bssAndSbss
  | unknownSegment
  deriving DecidableEq

abbrev Run := Except Exit

/-- The segments of a NOFF file. -/
inductive SegmentKind where
  | code
  | initData
  | readonlyData
  | uninitData
  deriving DecidableEq

end NachOS.Coff2noff

namespace NachOS.Userprog.NoffHeader
open NachOS.Coff2noff

def segment (h : NoffHeader) : SegmentKind → Segment
  | .code => h.code
  | .initData => h.initData
  | .readonlyData => h.readonlyData
  | .uninitData => h.uninitData

def setSegment (h : NoffHeader) (s : Segment) : SegmentKind → NoffHeader
  | .code => { h with code := s }
  | .initData => { h with initData := s }
  | .readonlyData => { h with readonlyData := s }
  | .uninitData => { h with uninitData := s }

theorem segment_setSegment (h : NoffHeader) (s : Segment) (kind other : SegmentKind) :
    (h.setSegment s kind).segment other = if other = kind then s else h.segment other := by
  cases kind <;> cases other <;> rfl

theorem setSegment_magic (h : NoffHeader) (s : Segment) (kind : SegmentKind) :
    (h.setSegment s kind).noffMagic = h.noffMagic := by
  cases kind <;> rfl

end NachOS.Userprog.NoffHeader

namespace NachOS.Coff2noff
open NachOS.Lib NachOS.Userprog NachOS.Stub

/-- The fields of `struct scnhdr` that are used, after their conversion. -/
structure Scnhdr where
  name : List Byte
  paddr : BitVec 32
  size : BitVec 32
  scnptr : BitVec 32
  deriving DecidableEq

/-- Section header `i` of those that start at the beginning of a buffer. -/
def sectionAt (big : Bool) (b : Buf) (i : Nat) : Scnhdr where
  name := (List.range 8).map fun k => b (ScnhdrSize * i + k)
  paddr := wordToHost big (hostWord big b (ScnhdrSize * i + 8))
  size := wordToHost big (hostWord big b (ScnhdrSize * i + 16))
  scnptr := wordToHost big (hostWord big b (ScnhdrSize * i + 20))

namespace Scnhdr

/-- `!strcmp(s_name, text)`, for a text shorter than the field. -/
def named (s : Scnhdr) (text : List Char) : Bool :=
  s.name.takeWhile (fun b => b ≠ 0) = Kernel.nameOf text

/-- The segment that the name of a section stands for. -/
def kind (s : Scnhdr) : Option SegmentKind :=
  if s.named ['.', 't', 'e', 'x', 't'] then some .code
  else if s.named ['.', 'd', 'a', 't', 'a'] then some .initData
  else if s.named ['.', 'r', 'd', 'a', 't', 'a'] then some .readonlyData
  else if s.named ['.', 'b', 's', 's'] then some .uninitData
  else none

end Scnhdr

/-- `Read`: exit unless all bytes are there. -/
def Read (h : Host) (fd : Nat) (nBytes : Int) : Run (List Byte × Host) :=
  match h.read fd nBytes with
  | (n, data, h) => if n = nBytes then .ok (data, h) else .error .tooShort

/-- `write`, on a descriptor that may be -1. -/
def write (h : Host) (fd : Option Nat) (buf : Buf) (nBytes : Int) : Int × Host :=
  match fd with
  | some fd => h.write fd buf nBytes
  | none => (-1, h)

/-- `Write`: exit unless all bytes were written. -/
def Write (h : Host) (fd : Option Nat) (buf : Buf) (nBytes : Int) : Run Host :=
  match write h fd buf nBytes with
  | (n, h) => if n = nBytes then .ok h else .error .unableToWrite

/-- `lseek(fd, offset, 0)`, whose result is not looked at. -/
def seekOut (h : Host) (fd : Option Nat) (offset : Int) : Host :=
  match fd with
  | some fd => (h.lseek fd offset .set).2
  | none => h

/-- The state of the loop over the sections. -/
structure Progress where
  host : Host
  noffH : NoffHeader
  inNoffFile : BitVec 32

/-- The raw data of a section goes to the end of the output. -/
def copySection (fdIn : Nat) (fdOut : Option Nat) (p : Progress) (s : Scnhdr)
    (kind : SegmentKind) : Run Progress := do
  let host := (p.host.lseek fdIn s.scnptr.toInt .set).2
  let (buffer, host) ← Read host fdIn s.size.toInt
  let host ← Write host fdOut (bufferOf buffer) s.size.toInt
  .ok {
    host
    noffH := p.noffH.setSegment ⟨s.paddr, p.inNoffFile, s.size⟩ kind
    inNoffFile := p.inNoffFile + s.size }

/-- A `.bss` section, after which there may be another. -/
def noteBss (p : Progress) (s : Scnhdr) : Run Progress :=
  let bss := p.noffH.uninitData
  if bss.size ≠ 0 then
    if s.paddr = bss.virtualAddr + bss.size then .error .bssAndSbss
    else .ok { p with
      noffH := { p.noffH with uninitData := { bss with size := bss.size + s.size } } }
  else .ok { p with
    noffH := { p.noffH with uninitData := { bss with virtualAddr := s.paddr, size := s.size } } }

/-- The body of the loop. -/
def convertSection (fdIn : Nat) (fdOut : Option Nat) (p : Progress) (s : Scnhdr) : Run Progress :=
  if s.size = 0 then .ok p
  else
    match s.kind with
    | some .uninitData => noteBss p s
    | some kind => copySection fdIn fdOut p s kind
    | none => .error .unknownSegment

def convertSections (fdIn : Nat) (fdOut : Option Nat) : Progress → List Scnhdr → Run Progress
  | p, [] => .ok p
  | p, s :: sections => do
    let p ← convertSection fdIn fdOut p s
    convertSections fdIn fdOut p sections

/-- The header before the loop: only the magic number and the sizes are set. -/
def startHeader (garbage : NoffHeader) : NoffHeader where
  noffMagic := NOFFMAGIC
  code := { garbage.code with size := 0 }
  initData := { garbage.initData with size := 0 }
  readonlyData := { garbage.readonlyData with size := 0 }
  uninitData := { garbage.uninitData with size := 0 }

/-- `main` from the headers on: the sections and then the NOFF header are written. -/
def convertBody (big : Bool) (fdIn : Nat) (fdOut : Option Nat) (garbage : NoffHeader) (h : Host)
    (sections : List Scnhdr) : Run Host := do
  let host := seekOut h fdOut NoffHeaderSize
  let p ← convertSections fdIn fdOut
    ⟨host, startHeader garbage, BitVec.ofNat 32 NoffHeaderSize⟩ sections
  Write (seekOut p.host fdOut 0) fdOut ((swapHeader big p.noffH).bytes big) NoffHeaderSize

/-- `main` on open files. -/
def convert (big : Bool) (fdIn : Nat) (fdOut : Option Nat) (garbage : NoffHeader) (h : Host) :
    Run Host := do
  let (fileh, h) ← Read h fdIn FilehdrSize
  if shortToHost big (hostShort big (bufferOf fileh) 0) ≠ MIPSELMAGIC then .error .notMipsel
  else
    let numsections := (shortToHost big (hostShort big (bufferOf fileh) 2)).toNat
    let (systemh, h) ← Read h fdIn AouthdrSize
    if shortToHost big (hostShort big (bufferOf systemh) 0) ≠ OMAGIC then .error .notOmagic
    else
      let (headers, h) ← Read h fdIn (numsections * ScnhdrSize : Nat)
      convertBody big fdIn fdOut garbage h
        ((List.range numsections).map (sectionAt big (bufferOf headers)))

/-- `close`, on a descriptor that may be -1. -/
def close (h : Host) : Option Nat → Host
  | some fd => (h.close fd).2
  | none => h

/-- `main`. The output is opened for writing only; it is never read, so it does not matter
that `.truncate` would permit it. -/
def main (big : Bool) (coffName noffName : List Byte) (grantIn grantOut : Option Nat)
    (garbage : NoffHeader) (h : Host) : Run Host :=
  match h.openFile coffName .readOnly grantIn with
  | (none, _) => .error .noInput
  | (some fdIn, h) =>
    let (fdOut, h) := h.openFile noffName .truncate grantOut
    do
      let h ← convert big fdIn fdOut garbage h
      .ok (close (close h (some fdIn)) fdOut)

end NachOS.Coff2noff
