import NachOS.Filesys.FlatFile
import NachOS.Lib.Host

/-!
# Open files over UNIX descriptors (filesys/openfile.h:32-74, lib/sysdep.cc:349-435)

With `FILESYS_STUB` an `OpenFile` is a descriptor of the host together with a
second position, `currentOffset`. `ReadAt`, `WriteAt` and `Length` move the offset
of the descriptor and leave `currentOffset` alone; `GetCurrentPos` copies the
former to the latter. So the two implementations of the class agree on a sequence
of calls exactly if, at each `GetCurrentPos`, the last transfer has left the
descriptor at the implicit position (`stub_agrees_iff`).
-/
namespace NachOS.Stub
open NachOS.Lib NachOS.Filesys

/-- `Lseek`: abort on error. -/
def Lseek (h : Host) (fd : Nat) (offset : Int) (whence : Whence) : Exec Host :=
  match h.lseek fd offset whence with
  | (retVal, h) => do
    check (0 ≤ retVal) .assertion
    .ok h

/-- `Tell`: a seek that moves nothing. -/
def Tell (h : Host) (fd : Nat) : Int := (h.lseek fd 0 .current).1

/-- `WriteFile`: abort unless everything was written. -/
def WriteFile (h : Host) (fd : Nat) (buffer : Buf) (nBytes : Int) : Exec Host :=
  match h.write fd buffer nBytes with
  | (retVal, h) => do
    check (retVal = nBytes) .assertion
    .ok h

structure OpenFile where
  file : Nat
  currentOffset : Int
  type : Int

namespace OpenFile

/-- The constructor. -/
def new (f : Nat) (t : Int) : OpenFile := ⟨f, 0, t⟩

def readAt (f : OpenFile) (h : Host) (numBytes position : Int) : Exec (Int × List Byte × Host) := do
  let h ← Lseek h f.file position .set
  .ok (h.read f.file numBytes)

def writeAt (f : OpenFile) (h : Host) (data : Buf) (numBytes position : Int) :
    Exec (Int × Host) := do
  let h ← Lseek h f.file position .set
  let h ← WriteFile h f.file data numBytes
  .ok (numBytes, h)

def read (f : OpenFile) (h : Host) (numBytes : Int) : Exec (Int × List Byte × OpenFile × Host) := do
  let (numRead, data, h) ← f.readAt h numBytes f.currentOffset
  .ok (numRead, data, { f with currentOffset := int32 (f.currentOffset + numRead) }, h)

def write (f : OpenFile) (h : Host) (data : Buf) (numBytes : Int) :
    Exec (Int × OpenFile × Host) := do
  let (numWritten, h) ← f.writeAt h data numBytes f.currentOffset
  .ok (numWritten, { f with currentOffset := int32 (f.currentOffset + numWritten) }, h)

def length (f : OpenFile) (h : Host) : Exec (Int × Host) := do
  let h ← Lseek h f.file 0 .fromEnd
  .ok (Tell h f.file, h)

def getCurrentPos (f : OpenFile) (h : Host) : Int × OpenFile :=
  (Tell h f.file, { f with currentOffset := Tell h f.file })

def seek (f : OpenFile) (h : Host) (pos : Int) : Exec (Int × OpenFile × Host) := do
  let h ← Lseek h f.file pos .set
  .ok (Tell h f.file, { f with currentOffset := Tell h f.file }, h)

/-- One call; the `int` that only this `Seek` returns is dropped. -/
def step (f : OpenFile) (h : Host) : FileOp → Exec (Result × OpenFile × Host)
  | .seek position => do
    let (_, f, h) ← f.seek h position
    .ok (⟨0, []⟩, f, h)
  | .read numBytes => do
    let (result, data, f, h) ← f.read h numBytes
    .ok (⟨result, data⟩, f, h)
  | .write data numBytes => do
    let (result, f, h) ← f.write h data numBytes
    .ok (⟨result, []⟩, f, h)
  | .readAt numBytes position => do
    let (result, data, h) ← f.readAt h numBytes position
    .ok (⟨result, data⟩, f, h)
  | .writeAt data numBytes position => do
    let (result, h) ← f.writeAt h data numBytes position
    .ok (⟨result, []⟩, f, h)
  | .length => do
    let (result, h) ← f.length h
    .ok (⟨result, []⟩, f, h)
  | .getCurrentPos =>
    let (result, f) := f.getCurrentPos h
    .ok (⟨result, []⟩, f, h)

def run (f : OpenFile) (h : Host) : List FileOp → Exec (List Result × OpenFile × Host)
  | [] => .ok ([], f, h)
  | op :: ops => do
    let (result, f, h) ← f.step h op
    let (results, f, h) ← f.run h ops
    .ok (result :: results, f, h)

/-- The descriptor, open for reading and writing, leads to a file with the bytes of
the array, and the second position is that of the array. -/
structure Follows (f : OpenFile) (h : Host) (flat : FlatFile) (d : Descriptor) : Prop where
  isOpen : h.fds f.file = some d
  readable : d.readable = true
  writable : d.writable = true
  bytes : h.contents d.inode = flat.bytes
  position : f.currentOffset = flat.position
  inside : 0 ≤ flat.position ∧ flat.position ≤ flat.bytes.length
  offset : d.offset ≤ flat.bytes.length
  max : flat.bytes.length ≤ OFF_MAX

variable {f : OpenFile} {h : Host} {flat : FlatFile} {d : Descriptor}

theorem Lseek_set (isOpen : h.fds f.file = some d) {p : Nat} (max : p ≤ OFF_MAX) :
    Lseek h f.file p .set = .ok (h.moveTo f.file d p) := by
  have nonneg : (0 : Int) ≤ p := by omega
  simp only [Lseek, Host.lseek_open isOpen (rfl : h.seekTarget d p .set = p) max,
    check_true nonneg, Exec.ok_bind]

theorem Tell_open (isOpen : h.fds f.file = some d) (max : d.offset ≤ OFF_MAX) :
    Tell h f.file = d.offset :=
  Host.lseek_current isOpen max

theorem count_within {n p : Nat} (within : p + n ≤ flat.bytes.length) : flat.count n p = n := by
  unfold FlatFile.count
  omega

/-- A `ReadAt` inside the file. -/
theorem readAt_follows (follows : f.Follows h flat d) {n p : Nat}
    (within : p + n ≤ flat.bytes.length) :
    ∃ h', f.readAt h n p = .ok ((n : Int), flat.slice p n, h') ∧
      h'.fds f.file = some { d with offset := p + n } ∧ h'.contents = h.contents := by
  have max := follows.max
  have there : (h.moveTo f.file d p).fds f.file = some { d with offset := p } := Host.moveTo_self p
  have data : (h.moveTo f.file d p).available { d with offset := p } n = flat.slice p n := by
    unfold Host.available FlatFile.slice
    rw [Host.moveTo_contents, follows.bytes]
  have size : (flat.slice p n).length = n := length_slice within
  have transfer := Host.read_open there follows.readable n
  rw [data, size] at transfer
  refine ⟨(h.moveTo f.file d p).moveTo f.file { d with offset := p } (p + n), ?_,
    Host.moveTo_self (p + n), rfl⟩
  simp only [readAt, Lseek_set follows.isOpen (by omega : p ≤ OFF_MAX), Exec.ok_bind, transfer]

/-- A `WriteAt` inside the file. -/
theorem writeAt_follows (follows : f.Follows h flat d) (data : Buf) {n p : Nat}
    (within : p + n ≤ flat.bytes.length) :
    ∃ h', f.writeAt h data n p = .ok ((n : Int), h') ∧
      h'.fds f.file = some { d with offset := p + n } ∧
      h'.contents d.inode = (flat.replace p (bytesOf data n)).bytes := by
  have max := follows.max
  have there : (h.moveTo f.file d p).fds f.file = some { d with offset := p } := Host.moveTo_self p
  have transfer := Host.write_open there follows.writable data (n := n)
    (show p + n ≤ OFF_MAX by omega)
    (by rw [Host.moveTo_contents, follows.bytes]; show p ≤ _; omega)
  refine ⟨((h.moveTo f.file d p).write f.file data n).2, ?_, ?_, ?_⟩
  · simp only [writeAt, Lseek_set follows.isOpen (by omega : p ≤ OFF_MAX), Exec.ok_bind, WriteFile,
      transfer, check_true]
  · rw [transfer]
    exact Host.moveTo_self (p + n)
  · rw [transfer]
    simp only [Function.update_self, Host.moveTo_contents, follows.bytes, FlatFile.replace,
      bytesOf_length]
    rfl

theorem length_follows (follows : f.Follows h flat d) :
    ∃ h', f.length h = .ok ((flat.bytes.length : Int), h') ∧
      h'.fds f.file = some { d with offset := flat.bytes.length } ∧ h'.contents = h.contents := by
  have max := follows.max
  have nonneg : (0 : Int) ≤ flat.bytes.length := by omega
  have aim : h.seekTarget d 0 .fromEnd = flat.bytes.length := by
    simp only [Host.seekTarget, follows.bytes, add_zero]
  have target := Host.lseek_open follows.isOpen aim max
  have there : (h.moveTo f.file d flat.bytes.length).fds f.file =
      some { d with offset := flat.bytes.length } := Host.moveTo_self _
  refine ⟨_, ?_, there, rfl⟩
  simp only [length, Lseek, target, check_true nonneg, Exec.ok_bind, Tell_open there max]

end OpenFile

end NachOS.Stub

namespace NachOS.Filesys
open NachOS.Lib

namespace FlatFile

/-- The call stays within the length of the file. -/
def Within (f : FlatFile) : FileOp → Prop
  | .seek position => 0 ≤ position ∧ position ≤ f.bytes.length
  | .read numBytes | .write _ numBytes => 0 ≤ numBytes ∧ f.position + numBytes ≤ f.bytes.length
  | .readAt numBytes position | .writeAt _ numBytes position =>
    0 ≤ numBytes ∧ 0 ≤ position ∧ position + numBytes ≤ f.bytes.length
  | .length | .getCurrentPos => True

def WithinRun (f : FlatFile) : List FileOp → Prop
  | [] => True
  | op :: ops => f.Within op ∧ (f.step op).2.WithinRun ops

variable {f : FlatFile}

theorem replace_length {p : Nat} {data : List Byte} (h : p + data.length ≤ f.bytes.length) :
    (f.replace p data).bytes.length = f.bytes.length := by
  unfold replace
  rw [List.length_append, List.length_append, List.length_take, List.length_drop]
  omega

theorem step_length (f : FlatFile) (op : FileOp) (within : f.Within op) (inside : 0 ≤ f.position) :
    (f.step op).2.bytes.length = f.bytes.length := by
  have fits : ∀ (data : Buf) (n p : Int), 0 ≤ n → 0 ≤ p → p + n ≤ f.bytes.length →
      (f.writeAt data n p).2.bytes.length = f.bytes.length := by
    intro data n p hn hp bound
    apply replace_length
    rw [bytesOf_length]
    unfold count
    omega
  cases op with
  | write data n => exact fits data n f.position within.1 inside within.2
  | writeAt data n p => exact fits data n p within.1 within.2.1 within.2.2
  | _ => rfl

theorem Within.admissible {op : FileOp} (within : f.Within op)
    (max : (f.bytes.length : Int) ≤ INT_MAX) : f.Admissible op := by
  cases op with
  | seek position => exact ⟨within.1, within.2.trans max⟩
  | read n => exact within.2.trans max
  | write data n => exact within.2.trans max
  | readAt n p => exact ⟨within.2.1, within.2.2.trans max⟩
  | writeAt data n p => exact ⟨within.2.1, within.2.2.trans max⟩
  | length => trivial
  | getCurrentPos => trivial

theorem step_position (f : FlatFile) (op : FileOp) (within : f.Within op) (inside : 0 ≤ f.position) :
    0 ≤ (f.step op).2.position := by
  cases op with
  | seek position => exact within.1
  | read n => exact Int.add_nonneg inside (Int.natCast_nonneg _)
  | write data n => exact Int.add_nonneg inside (Int.natCast_nonneg _)
  | _ => exact inside

theorem WithinRun.admissible {ops : List FileOp} (within : f.WithinRun ops)
    (max : (f.bytes.length : Int) ≤ INT_MAX) (inside : 0 ≤ f.position) : f.AdmissibleRun ops := by
  induction ops generalizing f with
  | nil => trivial
  | cons op ops ih =>
    obtain ⟨here, rest⟩ := within
    refine ⟨here.admissible max, ih rest ?_ (f.step_position op here inside)⟩
    rw [f.step_length op here inside]
    exact max

end FlatFile

end NachOS.Filesys

namespace NachOS.Stub
open NachOS.Lib NachOS.Filesys

/-- The implicit position after a sequence of calls, and the place where the last
call that moved the descriptor has left it. -/
structure Positions where
  implicit : Int
  descriptor : Int

/-- The effect of a call that stays within a file of length `length`. -/
def Positions.after (p : Positions) (length : Int) : FileOp → Positions
  | .seek position => ⟨position, position⟩
  | .read numBytes | .write _ numBytes => ⟨p.implicit + numBytes, p.implicit + numBytes⟩
  | .readAt numBytes position | .writeAt _ numBytes position =>
    { p with descriptor := position + numBytes }
  | .length => { p with descriptor := length }
  | .getCurrentPos => p

/-- At every `GetCurrentPos` the descriptor is at the implicit position. -/
def InStep (length : Int) : Positions → List FileOp → Prop
  | _, [] => True
  | p, .getCurrentPos :: ops => p.descriptor = p.implicit ∧ InStep length p ops
  | p, op :: ops => InStep length (p.after length op) ops

namespace OpenFile

variable {f : OpenFile} {h : Host} {flat : FlatFile} {d : Descriptor}

theorem flat_readAt {n p : Nat} (within : p + n ≤ flat.bytes.length) :
    flat.readAt n p = ⟨n, flat.slice p n⟩ := by
  simp only [FlatFile.readAt, count_within within, Int.toNat_natCast]

theorem flat_writeAt (data : Buf) {n p : Nat} (within : p + n ≤ flat.bytes.length) :
    flat.writeAt data n p = (⟨n, []⟩, flat.replace p (bytesOf data n)) := by
  simp only [FlatFile.writeAt, count_within within, Int.toNat_natCast]

/-- The relation after a call that leaves the descriptor at `offset`. -/
theorem Follows.moved (follows : f.Follows h flat d) {h' : Host} {flat' : FlatFile} {offset : Nat}
    {currentOffset : Int} (isOpen : h'.fds f.file = some { d with offset })
    (bytes : h'.contents d.inode = flat'.bytes) (size : flat'.bytes.length = flat.bytes.length)
    (position : currentOffset = flat'.position)
    (inside : 0 ≤ flat'.position ∧ flat'.position ≤ flat.bytes.length)
    (bound : offset ≤ flat.bytes.length) :
    ({ f with currentOffset } : OpenFile).Follows h' flat' { d with offset } :=
  ⟨isOpen, follows.readable, follows.writable, bytes, position, by rw [size]; exact inside,
    by rw [size]; exact bound, by rw [size]; exact follows.max⟩

/-- The call is the call on the flat array, and its effect on the positions is known. -/
def StepFollows (f : OpenFile) (h : Host) (flat : FlatFile) (d : Descriptor) (op : FileOp) : Prop :=
  ∃ f' h' d', f.step h op = .ok ((flat.step op).1, f', h') ∧ f'.Follows h' (flat.step op).2 d' ∧
    (⟨(flat.step op).2.position, d'.offset⟩ : Positions) =
      (⟨flat.position, d.offset⟩ : Positions).after flat.bytes.length op

theorem seek_stepFollows (follows : f.Follows h flat d) {position : Int}
    (within : flat.Within (.seek position)) : f.StepFollows h flat d (.seek position) := by
  obtain ⟨p, rfl⟩ := Int.eq_ofNat_of_zero_le within.1
  have there : (h.moveTo f.file d p).fds f.file = some { d with offset := p } :=
    Host.moveTo_self p
  have inside : p ≤ flat.bytes.length := Int.ofNat_le.mp within.2
  have bound : p ≤ OFF_MAX := inside.trans follows.max
  refine ⟨{ f with currentOffset := p }, h.moveTo f.file d p, { d with offset := p }, ?_,
    follows.moved there follows.bytes rfl rfl within inside, rfl⟩
  simp only [step, seek, Lseek_set follows.isOpen bound, Exec.ok_bind, Tell_open there bound]
  rfl

/-- `currentOffset += result` does not overflow. -/
theorem Follows.advance (follows : f.Follows h flat d) {n p : Nat}
    (fits : p + n ≤ flat.bytes.length) : int32 (p + n) = p + n := by
  have max := follows.max
  unfold OFF_MAX at max
  exact int32_of_range (by omega) (by omega)

theorem read_stepFollows (follows : f.Follows h flat d) {n : Int} (within : flat.Within (.read n)) :
    f.StepFollows h flat d (.read n) := by
  obtain ⟨n, rfl⟩ := Int.eq_ofNat_of_zero_le within.1
  obtain ⟨p, hp⟩ := Int.eq_ofNat_of_zero_le follows.inside.1
  have fits : p + n ≤ flat.bytes.length := by
    have := within.2
    omega
  obtain ⟨h', run, isOpen, same⟩ := readAt_follows follows fits
  have inside : (0 : Int) ≤ p + n ∧ (p + n : Int) ≤ flat.bytes.length := by omega
  have after : flat.step (.read n) = (⟨n, flat.slice p n⟩, ⟨flat.bytes, (p : Int) + n⟩) := by
    simp only [FlatFile.step, hp, flat_readAt fits, FlatFile.advance]
  refine ⟨{ f with currentOffset := (p : Int) + n }, h', { d with offset := p + n }, ?_, ?_, ?_⟩
  · simp only [step, read, follows.position, hp, run, Exec.ok_bind, follows.advance fits, after]
  · rw [after]
    exact follows.moved isOpen ((congrFun same _).trans follows.bytes) rfl rfl inside fits
  · rw [after, hp]
    rfl

theorem write_stepFollows (follows : f.Follows h flat d) {data : Buf} {n : Int}
    (within : flat.Within (.write data n)) : f.StepFollows h flat d (.write data n) := by
  have size := flat.step_length _ within follows.inside.1
  obtain ⟨n, rfl⟩ := Int.eq_ofNat_of_zero_le within.1
  obtain ⟨p, hp⟩ := Int.eq_ofNat_of_zero_le follows.inside.1
  have fits : p + n ≤ flat.bytes.length := by
    have := within.2
    omega
  obtain ⟨h', run, isOpen, bytes⟩ := writeAt_follows follows data fits
  have inside : (0 : Int) ≤ p + n ∧ (p + n : Int) ≤ flat.bytes.length := by omega
  have after : flat.step (.write data n) =
      (⟨n, []⟩, ⟨(flat.replace p (bytesOf data n)).bytes, (p : Int) + n⟩) := by
    simp only [FlatFile.step, hp, flat_writeAt data fits, FlatFile.advance, FlatFile.replace]
  rw [after] at size
  refine ⟨{ f with currentOffset := (p : Int) + n }, h', { d with offset := p + n }, ?_, ?_, ?_⟩
  · simp only [step, write, follows.position, hp, run, Exec.ok_bind, follows.advance fits, after]
  · rw [after]
    exact follows.moved isOpen bytes size rfl inside fits
  · rw [after, hp]
    rfl

theorem readAt_stepFollows (follows : f.Follows h flat d) {n p : Int}
    (within : flat.Within (.readAt n p)) : f.StepFollows h flat d (.readAt n p) := by
  obtain ⟨n, rfl⟩ := Int.eq_ofNat_of_zero_le within.1
  obtain ⟨p, rfl⟩ := Int.eq_ofNat_of_zero_le within.2.1
  have fits : p + n ≤ flat.bytes.length := by
    have := within.2.2
    omega
  obtain ⟨h', run, isOpen, same⟩ := readAt_follows follows fits
  refine ⟨f, h', { d with offset := p + n }, ?_, ?_, rfl⟩
  · simp only [step, run, Exec.ok_bind, FlatFile.step, flat_readAt fits]
  · exact follows.moved isOpen ((congrFun same _).trans follows.bytes) rfl follows.position
      follows.inside fits

theorem writeAt_stepFollows (follows : f.Follows h flat d) {data : Buf} {n p : Int}
    (within : flat.Within (.writeAt data n p)) : f.StepFollows h flat d (.writeAt data n p) := by
  have size := flat.step_length _ within follows.inside.1
  obtain ⟨n, rfl⟩ := Int.eq_ofNat_of_zero_le within.1
  obtain ⟨p, rfl⟩ := Int.eq_ofNat_of_zero_le within.2.1
  have fits : p + n ≤ flat.bytes.length := by
    have := within.2.2
    omega
  obtain ⟨h', run, isOpen, bytes⟩ := writeAt_follows follows data fits
  have after : flat.step (.writeAt data n p) = (⟨n, []⟩, flat.replace p (bytesOf data n)) :=
    flat_writeAt data fits
  unfold StepFollows
  rw [after] at size ⊢
  refine ⟨f, h', { d with offset := p + n }, ?_, ?_, rfl⟩
  · simp only [step, run, Exec.ok_bind]
  · exact follows.moved isOpen bytes size follows.position follows.inside fits

theorem length_stepFollows (follows : f.Follows h flat d) : f.StepFollows h flat d .length := by
  obtain ⟨h', run, isOpen, same⟩ := length_follows follows
  refine ⟨f, h', { d with offset := flat.bytes.length }, ?_, ?_, rfl⟩
  · simp only [step, run, Exec.ok_bind]
    rfl
  · exact follows.moved isOpen ((congrFun same _).trans follows.bytes) rfl follows.position
      follows.inside le_rfl

/-- Every call but `GetCurrentPos` is the call on the flat array. -/
theorem step_follows (follows : f.Follows h flat d) {op : FileOp} (within : flat.Within op)
    (other : op ≠ .getCurrentPos) : f.StepFollows h flat d op := by
  cases op with
  | seek position => exact seek_stepFollows follows within
  | read n => exact read_stepFollows follows within
  | write data n => exact write_stepFollows follows within
  | readAt n p => exact readAt_stepFollows follows within
  | writeAt data n p => exact writeAt_stepFollows follows within
  | length => exact length_stepFollows follows
  | getCurrentPos => exact absurd rfl other

theorem getCurrentPos_follows (follows : f.Follows h flat d) :
    f.step h .getCurrentPos = .ok (⟨d.offset, []⟩, { f with currentOffset := d.offset }, h) := by
  have bound : d.offset ≤ OFF_MAX := follows.offset.trans follows.max
  simp only [step, getCurrentPos, Tell_open follows.isOpen bound]

theorem inStep_other {length : Int} {p : Positions} {op : FileOp} {ops : List FileOp}
    (other : op ≠ .getCurrentPos) :
    InStep length p (op :: ops) ↔ InStep length (p.after length op) ops := by
  cases op with
  | getCurrentPos => exact absurd rfl other
  | _ => exact Iff.rfl

/-- The calls return what the calls on the array return exactly if every
`GetCurrentPos` finds the descriptor at the implicit position. -/
theorem run_follows (follows : f.Follows h flat d) {ops : List FileOp} (within : flat.WithinRun ops) :
    (∃ f' h', f.run h ops = .ok ((flat.run ops).1, f', h')) ↔
      InStep flat.bytes.length ⟨flat.position, d.offset⟩ ops := by
  induction ops generalizing f h flat d with
  | nil => exact ⟨fun _ => trivial, fun _ => ⟨f, h, rfl⟩⟩
  | cons op ops ih =>
    obtain ⟨here, rest⟩ := within
    by_cases asks : op = .getCurrentPos
    · subst asks
      have answer := getCurrentPos_follows follows
      simp only [run, answer, Exec.ok_bind]
      constructor
      · rintro ⟨f', h', returned⟩
        obtain ⟨⟨results, f₂, h₂⟩, tail, same⟩ := Exec.bind_eq_ok.mp returned
        simp only [FlatFile.run, FlatFile.step, Except.ok.injEq, Prod.mk.injEq, List.cons.injEq,
          Result.mk.injEq, and_true] at same
        obtain ⟨⟨agree, results_eq⟩, _⟩ := same
        have again : ({ f with currentOffset := d.offset } : OpenFile).Follows h flat d :=
          { follows with position := agree }
        exact ⟨agree, (ih again rest).mp ⟨f₂, h₂, results_eq ▸ tail⟩⟩
      · rintro ⟨agree, later⟩
        have again : ({ f with currentOffset := d.offset } : OpenFile).Follows h flat d :=
          { follows with position := agree }
        obtain ⟨f', h', tail⟩ := (ih again rest).mpr later
        refine ⟨f', h', ?_⟩
        change d.offset = flat.position at agree
        rw [tail, Exec.ok_bind]
        simp only [FlatFile.run, FlatFile.step, agree]
    · obtain ⟨f₁, h₁, d₁, first, follows₁, positions⟩ := step_follows follows here asks
      have size := flat.step_length op here follows.inside.1
      have continued := ih follows₁ rest
      rw [positions, size] at continued
      rw [inStep_other asks, ← continued]
      simp only [run, first, Exec.ok_bind, FlatFile.run]
      constructor
      · rintro ⟨f', h', returned⟩
        obtain ⟨⟨results, f₂, h₂⟩, tail, same⟩ := Exec.bind_eq_ok.mp returned
        simp only [Except.ok.injEq, Prod.mk.injEq, List.cons.injEq, true_and] at same
        exact ⟨f₂, h₂, same.1 ▸ tail⟩
      · rintro ⟨f', h', tail⟩
        exact ⟨f', h', by rw [tail]; rfl⟩

end OpenFile

/-- Both implementations return, and with the same results. `calls` gives for each
call the memory that the disk-based `WriteAt` allocates. -/
def Agree (f : Filesys.OpenFile) (disk : Disk) (g : OpenFile) (h : Host)
    (calls : List (Buf × FileOp)) : Prop :=
  ∃ results f' disk' g' h', f.run disk calls = .ok (results, f', disk') ∧
    g.run h (calls.map Prod.snd) = .ok (results, g', h')

/-- The same file, just opened in both implementations. -/
structure SameFile (f : Filesys.OpenFile) (disk : Disk) (g : OpenFile) (h : Host)
    (d : Descriptor) : Prop where
  valid : f.hdr.Valid
  nonneg : 0 ≤ f.hdr.numBytes
  start : f.seekPosition = 0
  isOpen : h.fds g.file = some d
  readable : d.readable = true
  writable : d.writable = true
  offset : d.offset = 0
  currentOffset : g.currentOffset = 0
  bytes : h.contents d.inode = Filesys.OpenFile.contents f.hdr disk

namespace SameFile

variable {f : Filesys.OpenFile} {disk : Disk} {g : OpenFile} {h : Host} {d : Descriptor}

theorem length (same : SameFile f disk g h d) :
    ((f.flat disk).bytes.length : Int) = f.hdr.numBytes ∧ f.hdr.numBytes ≤ OFF_MAX := by
  have max := same.valid.length_le
  have nonneg := same.nonneg
  constructor
  · simp only [Filesys.OpenFile.flat, Filesys.OpenFile.contents_length]
    omega
  · unfold MaxFileSize NumDirect SectorSize at max
    unfold OFF_MAX
    omega

theorem follows (same : SameFile f disk g h d) : g.Follows h (f.flat disk) d := by
  obtain ⟨size, max⟩ := same.length
  have start : (f.flat disk).position = 0 := same.start
  refine ⟨same.isOpen, same.readable, same.writable, same.bytes, ?_, ?_, ?_, ?_⟩
  · rw [same.currentOffset, start]
  · rw [start]
    omega
  · rw [same.offset]
    exact Nat.zero_le _
  · omega

end SameFile

/-- The two implementations of `OpenFile` agree on a sequence of calls within the
file exactly if each `GetCurrentPos` finds the descriptor at the implicit position. -/
theorem stub_agrees_iff {f : Filesys.OpenFile} {disk : Disk} {g : OpenFile} {h : Host}
    {d : Descriptor} (same : SameFile f disk g h d) {calls : List (Buf × FileOp)}
    (within : (f.flat disk).WithinRun (calls.map Prod.snd)) :
    Agree f disk g h calls ↔ InStep f.hdr.numBytes ⟨0, 0⟩ (calls.map Prod.snd) := by
  obtain ⟨size, max⟩ := same.length
  have positioned : f.Positioned := by
    unfold Filesys.OpenFile.Positioned INT_MAX
    rw [same.start]
    omega
  have admissible := within.admissible (by rw [size]; exact max) positioned.1
  obtain ⟨f', disk', run, _⟩ :=
    Filesys.OpenFile.run_refines same.valid same.nonneg positioned admissible
  have follows := OpenFile.run_follows same.follows within
  have start : (f.flat disk).position = 0 := same.start
  rw [size, start, same.offset, Nat.cast_zero] at follows
  rw [← follows]
  constructor
  · rintro ⟨results, _, _, g', h', first, second⟩
    rw [run] at first
    cases first
    exact ⟨g', h', second⟩
  · rintro ⟨g', h', second⟩
    exact ⟨_, f', disk', g', h', run, second⟩

/-- A host on which descriptor 3 leads to a file of 200 bytes. -/
def sampleHost : Host where
  names := fun _ => none
  contents := fun _ => Filesys.OpenFile.contents Filesys.OpenFile.twoSectors fun _ _ => 7
  fds := Function.update (fun _ => none) 3 (some ⟨0, 0, true, true⟩)
  nextInode := 1

theorem sample_sameFile : SameFile ⟨Filesys.OpenFile.twoSectors, 0⟩ (fun _ _ => 7) (.new 3 0)
    sampleHost ⟨0, 0, true, true⟩ where
  valid := Filesys.OpenFile.twoSectors_valid
  nonneg := by decide +kernel
  start := rfl
  isOpen := rfl
  readable := rfl
  writable := rfl
  offset := rfl
  currentOffset := rfl
  bytes := rfl

def sampleCalls (ops : List FileOp) : List (Buf × FileOp) := ops.map fun op => (fun _ => 0, op)

theorem stub_agrees_iff_read : Agree ⟨Filesys.OpenFile.twoSectors, 0⟩ (fun _ _ => 7) (.new 3 0)
    sampleHost (sampleCalls [.readAt 4 0, .read 10, .getCurrentPos]) := by
  apply (stub_agrees_iff sample_sameFile _).mpr
  · exact ⟨rfl, trivial⟩
  · exact ⟨⟨by decide, by decide, by decide +kernel⟩, ⟨by decide, by decide +kernel⟩, trivial, trivial⟩

/-- After `ReadAt` of the first four bytes the positions differ. -/
theorem stub_disagrees :
    ¬ ∀ f disk g h d, SameFile f disk g h d → ∀ calls : List (Buf × FileOp),
      (f.flat disk).WithinRun (calls.map Prod.snd) → Agree f disk g h calls := by
  intro agree
  obtain ⟨results, f', disk', g', h', first, second⟩ := agree _ _ _ _ _ sample_sameFile
    (sampleCalls [.readAt 4 0, .getCurrentPos])
    ⟨⟨by decide, by decide, by decide +kernel⟩, trivial, trivial⟩
  have onDisk : (((⟨Filesys.OpenFile.twoSectors, 0⟩ : Filesys.OpenFile).run (fun _ _ => 7)
      (sampleCalls [.readAt 4 0, .getCurrentPos])).toOption.map fun r => r.1.map Result.value) =
        some [4, 0] := by
    decide +kernel
  have onHost : (((OpenFile.new 3 0).run sampleHost [.readAt 4 0, .getCurrentPos]).toOption.map
      fun r => r.1.map Result.value) = some [4, 4] := by
    decide +kernel
  rw [first] at onDisk
  have second' : (OpenFile.new 3 0).run sampleHost [.readAt 4 0, .getCurrentPos] =
    .ok (results, g', h') := second
  rw [second'] at onHost
  simp only [Except.toOption, Option.map_some, Option.some.injEq] at onDisk onHost
  rw [onDisk] at onHost
  exact absurd onHost (by decide)

end NachOS.Stub
