import NachOS.Lib.Memory

/-!
# UNIX files

The part of a UNIX system that a program sees through `open`, `read`, `write`,
`lseek`, `close` and `unlink`: directory entries lead to files, descriptors have an
offset of their own. A file lives on while a name or a descriptor leads to it.

What the system decides for itself is an argument: `grant` is the descriptor that
`open` gives if it can give one (a descriptor that is not open, for a file that
exists or is created), and `none` makes it fail; `unlink` likewise asks for a
permission. `off_t` has 32 bits: a longer file is not opened (EOVERFLOW) and a
write past the limit fails (EFBIG). Only regular files are considered, so a read
returns all bytes there are.
-/
namespace NachOS.Lib

structure Descriptor where
  inode : Nat
  offset : Nat
  readable : Bool
  writable : Bool

/-- The descriptor apart from its offset. -/
def Descriptor.atStart (d : Descriptor) : Descriptor := { d with offset := 0 }

structure Host where
  names : List Byte → Option Nat
  contents : Nat → List Byte
  fds : Nat → Option Descriptor
  /-- No file has this number or a larger one. -/
  nextInode : Nat

/-- The flags of `open` that are used. -/
inductive OpenMode where
  /-- `O_RDWR` -/
  | readWrite
  /-- `O_RDONLY` -/
  | readOnly
  /-- `O_RDWR | O_CREAT | O_TRUNC` -/
  | truncate
  deriving DecidableEq

inductive Whence where
  | set
  | current
  | fromEnd

/-- The largest `off_t`. -/
def OFF_MAX : Nat := 2147483647

namespace Host

/-- The file that `open` leads to, if it is there or is made. -/
def resolve (h : Host) (name : List Byte) (mode : OpenMode) : Option Nat × Host :=
  match h.names name, mode with
  | some inode, .truncate =>
    (some inode, { h with contents := Function.update h.contents inode [] })
  | some inode, _ => (if (h.contents inode).length ≤ OFF_MAX then some inode else none, h)
  | none, .truncate =>
    (some h.nextInode, { h with
      names := Function.update h.names name (some h.nextInode)
      contents := Function.update h.contents h.nextInode []
      nextInode := h.nextInode + 1 })
  | none, _ => (none, h)

/-- `open(name, mode)`: the descriptor, or `none` for -1. -/
def openFile (h : Host) (name : List Byte) (mode : OpenMode) (grant : Option Nat) :
    Option Nat × Host :=
  match grant with
  | none => (none, h)
  | some fd =>
    if (h.fds fd).isSome then (none, h)
    else
      match h.resolve name mode with
      | (none, _) => (none, h)
      | (some inode, h) =>
        (some fd, { h with
          fds := Function.update h.fds fd (some ⟨inode, 0, true, decide (mode ≠ .readOnly)⟩) })

def moveTo (h : Host) (fd : Nat) (d : Descriptor) (offset : Nat) : Host :=
  { h with fds := Function.update h.fds fd (some { d with offset }) }

/-- `read(fd, buffer, n)`: what it returns and the bytes it delivers. -/
def read (h : Host) (fd : Nat) (n : Int) : Int × List Byte × Host :=
  match h.fds fd with
  | none => (-1, [], h)
  | some d =>
    if d.readable = false ∨ n < 0 then (-1, [], h)
    else
      let data := ((h.contents d.inode).drop d.offset).take n.toNat
      (data.length, data, h.moveTo fd d (d.offset + data.length))

/-- The contents after `data` is written at `offset`; a gap is filled with zeros. -/
def overwrite (bytes : List Byte) (offset : Nat) (data : List Byte) : List Byte :=
  (bytes ++ List.replicate (offset - bytes.length) 0).take offset ++ data ++
    bytes.drop (offset + data.length)

/-- `write(fd, buffer, n)`. -/
def write (h : Host) (fd : Nat) (buffer : Buf) (n : Int) : Int × Host :=
  match h.fds fd with
  | none => (-1, h)
  | some d =>
    if d.writable = false ∨ n < 0 ∨ d.offset + n > OFF_MAX then (-1, h)
    else
      let data := (List.range n.toNat).map buffer
      (n, { h.moveTo fd d (d.offset + n.toNat) with
        contents := Function.update h.contents d.inode
          (if n = 0 then h.contents d.inode else overwrite (h.contents d.inode) d.offset data) })

/-- The place that a seek leads to. -/
def seekTarget (h : Host) (d : Descriptor) (offset : Int) : Whence → Int
  | .set => offset
  | .current => d.offset + offset
  | .fromEnd => (h.contents d.inode).length + offset

/-- `lseek(fd, offset, whence)`. -/
def lseek (h : Host) (fd : Nat) (offset : Int) (whence : Whence) : Int × Host :=
  match h.fds fd with
  | none => (-1, h)
  | some d =>
    let target := h.seekTarget d offset whence
    if target < 0 ∨ target > OFF_MAX then (-1, h) else (target, h.moveTo fd d target.toNat)

/-- `close(fd)`. -/
def close (h : Host) (fd : Nat) : Int × Host :=
  if (h.fds fd).isSome then (0, { h with fds := Function.update h.fds fd none }) else (-1, h)

/-- `unlink(name)`. -/
def unlink (h : Host) (name : List Byte) (permitted : Bool) : Int × Host :=
  if (h.names name).isSome && permitted then
    (0, { h with names := Function.update h.names name none })
  else (-1, h)

variable {h : Host} {fd : Nat} {d : Descriptor}

@[simp] theorem moveTo_self (offset : Nat) :
    (h.moveTo fd d offset).fds fd = some { d with offset } :=
  Function.update_self _ _ _

theorem moveTo_other {other : Nat} (offset : Nat) (ne : other ≠ fd) :
    (h.moveTo fd d offset).fds other = h.fds other :=
  Function.update_of_ne ne _ _

@[simp] theorem moveTo_contents (offset : Nat) : (h.moveTo fd d offset).contents = h.contents := rfl

theorem moveTo_here (isOpen : h.fds fd = some d) : h.moveTo fd d d.offset = h := by
  unfold moveTo
  rw [show Function.update h.fds fd (some d) = h.fds from Function.update_eq_self_iff.mpr isOpen.symm]

theorem lseek_open (isOpen : h.fds fd = some d) {offset : Int} {whence : Whence} {target : Nat}
    (aim : h.seekTarget d offset whence = target) (max : target ≤ OFF_MAX) :
    h.lseek fd offset whence = ((target : Int), h.moveTo fd d target) := by
  have range : ¬ (h.seekTarget d offset whence < 0 ∨ h.seekTarget d offset whence > OFF_MAX) := by
    omega
  unfold lseek
  rw [isOpen]
  simp only [if_neg range]
  rw [aim, Int.toNat_natCast]

theorem lseek_current (isOpen : h.fds fd = some d) (max : d.offset ≤ OFF_MAX) :
    (h.lseek fd 0 .current).1 = d.offset := by
  have here : h.seekTarget d 0 .current = d.offset := add_zero _
  rw [lseek_open isOpen here max]

/-- The bytes that a read of `n` bytes delivers. -/
def available (h : Host) (d : Descriptor) (n : Nat) : List Byte :=
  ((h.contents d.inode).drop d.offset).take n

theorem read_open (isOpen : h.fds fd = some d) (readable : d.readable = true) (n : Nat) :
    h.read fd n = (((h.available d n).length : Int), h.available d n,
      h.moveTo fd d (d.offset + (h.available d n).length)) := by
  unfold read
  rw [isOpen]
  simp only [Int.toNat_natCast]
  rw [if_neg (by simp [readable])]
  rfl

theorem overwrite_inside {bytes data : List Byte} {offset : Nat} (h : offset ≤ bytes.length) :
    overwrite bytes offset data = bytes.take offset ++ data ++ bytes.drop (offset + data.length) := by
  have gap : offset - bytes.length = 0 := by omega
  unfold overwrite
  rw [gap, List.replicate_zero, List.append_nil]

/-- What is read back after a write: the new bytes, the old ones around them, and zeros
where there was nothing. -/
theorem overwrite_getD (bytes data : List Byte) (offset i : Nat) :
    (overwrite bytes offset data).getD i 0 =
      if offset ≤ i ∧ i < offset + data.length then data.getD (i - offset) 0
      else bytes.getD i 0 := by
  have start : ((bytes ++ List.replicate (offset - bytes.length) 0).take offset).length = offset := by
    rw [List.length_take, List.length_append, List.length_replicate]
    omega
  simp only [overwrite, List.append_assoc, List.getD_eq_getElem?_getD]
  by_cases before : i < offset
  · rw [List.getElem?_append_left (by omega), List.getElem?_take_of_lt before, if_neg (by omega)]
    by_cases inside : i < bytes.length
    · rw [List.getElem?_append_left inside]
    · rw [List.getElem?_append_right (by omega), List.getElem?_eq_none (by omega : bytes.length ≤ i),
        List.getElem?_replicate_of_lt (by omega)]
      rfl
  · rw [List.getElem?_append_right (by omega), start]
    by_cases written : i < offset + data.length
    · rw [List.getElem?_append_left (by omega), if_pos ⟨by omega, written⟩]
    · rw [List.getElem?_append_right (by omega), List.getElem?_drop, if_neg (by omega)]
      congr 2
      omega

theorem write_open (isOpen : h.fds fd = some d) (writable : d.writable = true) (buffer : Buf)
    {n : Nat} (max : d.offset + n ≤ OFF_MAX) (inside : d.offset ≤ (h.contents d.inode).length) :
    h.write fd buffer n = ((n : Int), { h.moveTo fd d (d.offset + n) with
      contents := Function.update h.contents d.inode
        ((h.contents d.inode).take d.offset ++ (List.range n).map buffer ++
          (h.contents d.inode).drop (d.offset + n)) }) := by
  have bytes : (if (n : Int) = 0 then h.contents d.inode
      else overwrite (h.contents d.inode) d.offset ((List.range n).map buffer)) =
      (h.contents d.inode).take d.offset ++ (List.range n).map buffer ++
        (h.contents d.inode).drop (d.offset + n) := by
    split
    next zero =>
      have : n = 0 := by omega
      simp [this]
    next => rw [overwrite_inside inside, List.length_map, List.length_range]
  unfold write
  rw [isOpen]
  simp only [Int.toNat_natCast]
  have accepted : ¬ (d.writable = false ∨ (n : Int) < 0 ∨ (d.offset : Int) + n > OFF_MAX) := by
    rw [writable, not_or]
    exact ⟨by decide, by omega⟩
  rw [if_neg accepted, bytes]

/-- A write either moves the descriptor behind its last byte or fails. -/
theorem write_cases (isOpen : h.fds fd = some d) (writable : d.writable = true) (buffer : Buf)
    (n : Nat) :
    (d.offset + n ≤ OFF_MAX ∧ (h.write fd buffer n).1 = n ∧
      (h.write fd buffer n).2.fds fd = some { d with offset := d.offset + n }) ∨
    (OFF_MAX < d.offset + n ∧ h.write fd buffer n = (-1, h)) := by
  unfold write
  rw [isOpen]
  simp only
  split
  next refused =>
    rw [writable] at refused
    refine .inr ⟨?_, rfl⟩
    rcases refused with never | refused
    · cases never
    · omega
  next accepted =>
    refine .inl ⟨by omega, rfl, ?_⟩
    exact moveTo_self (d.offset + n)

/-- The contents after a write that the host accepts. -/
theorem write_contents (isOpen : h.fds fd = some d) (writable : d.writable = true) (buffer : Buf)
    {n : Nat} (max : d.offset + n ≤ OFF_MAX) :
    (h.write fd buffer n).2.contents = Function.update h.contents d.inode
      (if n = 0 then h.contents d.inode
        else overwrite (h.contents d.inode) d.offset ((List.range n).map buffer)) := by
  have accepted : ¬ (d.writable = false ∨ (n : Int) < 0 ∨ (d.offset : Int) + n > OFF_MAX) := by
    rw [writable, not_or]
    exact ⟨by decide, by omega⟩
  unfold write
  rw [isOpen]
  simp only [if_neg accepted, Int.toNat_natCast, Int.natCast_eq_zero]

/-- `open` of a file that exists. -/
theorem openFile_existing {name : List Byte} {inode : Nat} (mode : OpenMode)
    (existing : mode ≠ .truncate) (unopened : h.fds fd = none) (found : h.names name = some inode)
    (small : (h.contents inode).length ≤ OFF_MAX) :
    h.openFile name mode (some fd) = (some fd, { h with
      fds := Function.update h.fds fd (some ⟨inode, 0, true, decide (mode ≠ .readOnly)⟩) }) := by
  have closed : ¬ (h.fds fd).isSome = true := by simp [unopened]
  unfold openFile resolve
  cases mode with
  | truncate => exact absurd rfl existing
  | readWrite => simp only [if_neg closed, found, if_pos small]
  | readOnly => simp only [if_neg closed, found, if_pos small]

/-- `open` of a file that is emptied, or made. -/
theorem openFile_truncate (name : List Byte) (unopened : h.fds fd = none) :
    ∃ inode h', h.openFile name .truncate (some fd) = (some fd, h') ∧
      h'.names = Function.update h.names name (some inode) ∧
      (h.names name = some inode ∨ inode = h.nextInode) ∧
      h'.contents = Function.update h.contents inode [] ∧
      h'.fds = Function.update h.fds fd (some ⟨inode, 0, true, true⟩) := by
  have closed : ¬ (h.fds fd).isSome = true := by simp [unopened]
  unfold openFile resolve
  simp only [if_neg closed]
  cases found : h.names name with
  | some inode =>
    exact ⟨inode, _, rfl, (Function.update_eq_self_iff.mpr found.symm).symm, .inl rfl, rfl, rfl⟩
  | none => exact ⟨h.nextInode, _, rfl, rfl, .inr rfl, rfl, rfl⟩

section Quiet

variable {h' h'' : Host}

/-- Files of a size that `off_t` can express stay such files. -/
def KeepsBounds (h h' : Host) : Prop :=
  ∀ inode, (h.contents inode).length ≤ OFF_MAX → (h'.contents inode).length ≤ OFF_MAX

/-- The same descriptors are open on the same files; only their offsets move, and
not beyond what `off_t` can express. -/
structure Quiet (h h' : Host) : Prop where
  descriptors : ∀ fd, (h'.fds fd).map Descriptor.atStart = (h.fds fd).map Descriptor.atStart
  offsets : ∀ fd d, h'.fds fd = some d → d.offset ≤ OFF_MAX ∨ h.fds fd = some d
  bounds : h.KeepsBounds h'

theorem Quiet.refl (h : Host) : Quiet h h := ⟨fun _ => rfl, fun _ _ => .inr, fun _ => id⟩

theorem Quiet.trans (first : Quiet h h') (second : Quiet h' h'') : Quiet h h'' where
  descriptors fd := (second.descriptors fd).trans (first.descriptors fd)
  offsets fd d there := (second.offsets fd d there).elim .inl (first.offsets fd d)
  bounds inode small := second.bounds inode (first.bounds inode small)

theorem Quiet.isSome (quiet : Quiet h h') (fd : Nat) : (h'.fds fd).isSome = (h.fds fd).isSome := by
  have same := congrArg Option.isSome (quiet.descriptors fd)
  rwa [Option.isSome_map, Option.isSome_map] at same

/-- A call that keeps the table of descriptors. -/
theorem Quiet.of_fds (same : h'.fds = h.fds) (bounds : h.KeepsBounds h') : Quiet h h' where
  descriptors fd := by rw [same]
  offsets fd d there := .inr (same ▸ there)
  bounds := bounds

theorem moveTo_quiet (isOpen : h.fds fd = some d) {offset : Nat} (max : offset ≤ OFF_MAX) :
    Quiet h (h.moveTo fd d offset) where
  descriptors other := by
    by_cases same : other = fd
    · rw [same, moveTo_self, isOpen]
      rfl
    · rw [moveTo_other offset same]
  offsets other d' there := by
    by_cases same : other = fd
    · rw [same, moveTo_self, Option.some.injEq] at there
      rw [← there]
      exact .inl max
    · rw [moveTo_other offset same] at there
      exact .inr there
  bounds _ := id

theorem lseek_quiet (offset : Int) (whence : Whence) : Quiet h (h.lseek fd offset whence).2 := by
  unfold lseek
  cases isOpen : h.fds fd with
  | none => exact .refl h
  | some d =>
    simp only
    split
    next => exact .refl h
    next range => exact moveTo_quiet isOpen (by omega)

theorem overwrite_length (bytes data : List Byte) (offset : Nat) :
    (overwrite bytes offset data).length = max bytes.length (offset + data.length) := by
  unfold overwrite
  rw [List.length_append, List.length_append, List.length_take, List.length_append,
    List.length_replicate, List.length_drop]
  omega

theorem write_quiet (buffer : Buf) (n : Int) : Quiet h (h.write fd buffer n).2 := by
  unfold write
  cases isOpen : h.fds fd with
  | none => exact .refl h
  | some d =>
    simp only
    split
    next => exact .refl h
    next accepted =>
      have range : 0 ≤ n ∧ d.offset + n ≤ OFF_MAX := by omega
      have moved := moveTo_quiet isOpen (show d.offset + n.toNat ≤ OFF_MAX by omega)
      refine ⟨moved.descriptors, moved.offsets, fun inode small => ?_⟩
      by_cases same : inode = d.inode
      · rw [same] at small ⊢
        simp only [Function.update_self]
        split
        next => exact small
        next =>
          rw [overwrite_length, List.length_map, List.length_range]
          omega
      · simp only [Function.update_of_ne same]
        exact small

theorem unlink_quiet (name : List Byte) (permitted : Bool) : Quiet h (h.unlink name permitted).2 := by
  unfold unlink
  split
  next => exact .of_fds rfl fun _ => id
  next => exact .refl h

theorem resolve_some {name : List Byte} {mode : OpenMode} {inode : Nat}
    (resolved : h.resolve name mode = (some inode, h')) :
    h'.fds = h.fds ∧ (h'.contents inode).length ≤ OFF_MAX := by
  unfold resolve at resolved
  split at resolved
  next =>
    cases resolved
    simp
  next found _ =>
    split at resolved
    next small =>
      cases resolved
      exact ⟨rfl, small⟩
    next => cases resolved
  next =>
    cases resolved
    simp
  next => cases resolved

theorem resolve_keepsBounds (name : List Byte) (mode : OpenMode) :
    h.KeepsBounds (h.resolve name mode).2 := by
  intro inode small
  unfold resolve
  split
  next found =>
    simp only [Function.update_apply]
    split
    · exact Nat.zero_le _
    · exact small
  next => exact small
  next =>
    simp only [Function.update_apply]
    split
    · exact Nat.zero_le _
    · exact small
  next => exact small

/-- `open` fails without effect or opens a new descriptor, at the start of a file of
a size that `off_t` can express. -/
theorem openFile_cases (h : Host) (name : List Byte) (mode : OpenMode) (grant : Option Nat) :
    h.openFile name mode grant = (none, h) ∨
    ∃ fd inode h', h.openFile name mode grant = (some fd, h') ∧ h.fds fd = none ∧
      h'.fds = Function.update h.fds fd (some ⟨inode, 0, true, decide (mode ≠ .readOnly)⟩) ∧
      h.KeepsBounds h' ∧ (h'.contents inode).length ≤ OFF_MAX := by
  unfold openFile
  cases grant with
  | none => exact .inl rfl
  | some fd =>
    simp only
    split
    next => exact .inl rfl
    next closed =>
      have bounds := resolve_keepsBounds (h := h) name mode
      have unopened : h.fds fd = none := by simpa using closed
      cases resolved : h.resolve name mode with
      | mk inode h₁ =>
        rw [resolved] at bounds
        cases inode with
        | none => exact .inl rfl
        | some inode =>
          have facts := resolve_some resolved
          refine .inr ⟨fd, inode, _, rfl, unopened, ?_, bounds, facts.2⟩
          rw [facts.1]

/-- Closing the descriptor that was opened last. -/
theorem fds_reopened {entry : Option Descriptor} (unopened : h.fds fd = none) :
    Function.update (Function.update h.fds fd entry) fd none = h.fds := by
  rw [Function.update_idem, Function.update_eq_self_iff]
  exact unopened.symm

end Quiet

end Host

end NachOS.Lib
