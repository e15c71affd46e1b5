import NachOS.Userprog.Transfers

/-!
# Ids and positions (userprog/ksyscall.h:274-309, 329-349, 372-400)

`SysRead`, `SysWrite`, `SysSeek` and `SysClose` test an id before they look it up, each
with a comparison of its own: `SysRead` and `SysSeek` let the length of the table pass
as an index (`ids_checked_iff`). `SysSeek` asks for the length of the file to test its
argument, which moves the descriptor to the end; a seek that is refused leaves it there,
and the next transfer starts at the end of the file (`seek_exact_iff`).
-/
namespace NachOS.Stub
open NachOS.Lib NachOS.Filesys

namespace Kernel

variable {k k' : Kernel} {id pos : CInt} {a : Nat} {f : OpenFile} {d : Descriptor}
  {foreign : Nat → Bool}

/-- The four calls report -1 and change nothing. -/
structure RejectsId (k : Kernel) (id : CInt) : Prop where
  read : ∀ virtAddr charcount typed, k.sysRead virtAddr charcount id.toInt typed = .ok (-1, k)
  write : ∀ virtAddr charcount, k.sysWrite virtAddr charcount id.toInt = .ok (some (-1), k)
  seek : ∀ pos, k.sysSeek pos id.toInt = .ok (-1, k)
  close : k.sysClose id.toInt = .ok (-1, k)

/-- `openf[id]` is inside of the table. -/
def IdInside (id : CInt) : Prop := 0 ≤ id.toInt ∧ id.toInt < MAX_FILE_OPEN

instance (id : CInt) : Decidable (IdInside id) :=
  inferInstanceAs (Decidable (0 ≤ id.toInt ∧ id.toInt < MAX_FILE_OPEN))

/-- No call looks up an id outside of the table, and each rejects an id that is outside
of it or leads to no file. -/
structure IdChecked (k : Kernel) (id : CInt) : Prop where
  read : ∀ virtAddr charcount typed,
    k.sysRead virtAddr charcount id.toInt typed = .error .outOfBounds → IdInside id
  write : ∀ virtAddr charcount,
    k.sysWrite virtAddr charcount id.toInt = .error .outOfBounds → IdInside id
  seek : ∀ pos, k.sysSeek pos id.toInt = .error .outOfBounds → IdInside id
  close : k.sysClose id.toInt = .error .outOfBounds → IdInside id
  rejects : ¬ IdInside id ∨ k.openf id.toInt.toNat = none → k.RejectsId id

theorem slot_inside (inside : IdInside id) : k.slot id.toInt = .ok (k.openf id.toInt.toNat) := by
  have range : 0 ≤ id.toInt ∧ id.toInt < MAX_FILE_OPEN := inside
  simp only [slot, check_true range, Exec.ok_bind]

/-- Every id but the length of the table is tested before it is looked up. -/
theorem rejectsId (other : id.toInt ≠ 15)
    (bad : ¬ IdInside id ∨ k.openf id.toInt.toNat = none) : k.RejectsId id := by
  by_cases inside : IdInside id
  · have empty : k.openf id.toInt.toNat = none := bad.resolve_left (not_not.mpr inside)
    have slot := (slot_inside (k := k) inside).trans (congrArg Except.ok empty)
    exact {
      read := by
        intro virtAddr charcount typed
        unfold sysRead
        split
        next => rfl
        next => rw [slot]; rfl
      write := by
        intro virtAddr charcount
        unfold sysWrite
        split
        next => rfl
        next => rw [slot]; rfl
      seek := by
        intro pos
        unfold sysSeek
        split
        next => rfl
        next => rw [slot]; rfl
      close := by
        unfold sysClose
        rw [empty]
        split <;> rfl }
  · unfold IdInside at inside
    have top : (MAX_FILE_OPEN : Int) = 15 := rfl
    have outside : id.toInt < 0 ∨ 15 < id.toInt := by omega
    exact {
      read := by
        intro virtAddr charcount typed
        exact if_pos (by omega)
      write := by
        intro virtAddr charcount
        exact if_pos (by omega)
      seek := by
        intro pos
        exact if_pos (by omega)
      close := if_neg (by omega) }

end Kernel

/-- All four calls check an id exactly if it is not the length of the table. -/
theorem ids_checked_iff (k : Kernel) (id : CInt) : k.IdChecked id ↔ id.toInt ≠ 15 := by
  constructor
  · intro checked last
    have outside : ¬ (0 ≤ id.toInt ∧ id.toInt < MAX_FILE_OPEN) := by
      rw [last]
      decide
    have rejected := (checked.rejects (.inl outside)).seek 0
    have accepted : ¬ (id.toInt < 2 ∨ id.toInt > MAX_FILE_OPEN) := by
      rw [last]
      decide
    have fault : k.slot id.toInt = .error .outOfBounds := by
      unfold Kernel.slot check
      rw [if_neg outside]
      rfl
    unfold Kernel.sysSeek at rejected
    rw [if_neg accepted, fault] at rejected
    cases rejected
  · intro other
    have rejects := fun bad => Kernel.rejectsId (k := k) other bad
    refine ⟨fun virtAddr charcount typed fault => ?_, fun virtAddr charcount fault => ?_,
      fun pos fault => ?_, fun fault => ?_, rejects⟩
    · by_contra outside
      rw [(rejects (.inl outside)).read] at fault
      cases fault
    · by_contra outside
      rw [(rejects (.inl outside)).write] at fault
      cases fault
    · by_contra outside
      rw [(rejects (.inl outside)).seek] at fault
      cases fault
    · by_contra outside
      rw [(rejects (.inl outside)).close] at fault
      cases fault

/-- `SysRead` and `SysSeek` access `openf[15]`. -/
theorem ids_past_table : ¬ ∀ (k : Kernel) (id : CInt), k.IdChecked id := by
  intro checked
  have fault : ((Kernel.holding shortName).sysRead 0 1 (15 : CInt).toInt []).toOption.isSome =
      false := by decide
  rw [((checked (Kernel.holding shortName) 15).rejects (.inl (by decide))).read 0 1 []] at fault
  cases fault

namespace Kernel

variable {k k' : Kernel} {id pos : CInt} {a : Nat} {f : OpenFile} {d : Descriptor}
  {foreign : Nat → Bool}

/-- The length of the file behind a descriptor. -/
def fileLength (k : Kernel) (d : Descriptor) : Nat := (k.host.contents d.inode).length

/-- The place that a seek asks for. -/
def seekTarget (k : Kernel) (d : Descriptor) (pos : CInt) : Int :=
  if pos.toInt = -1 then k.fileLength d else pos.toInt

/-- `Seek` to a place inside of the file returns that place, and the next transfer
starts there; any other returns -1, and the next transfer starts where it would have
without the call. No other id is affected. -/
def SeeksExactly (k : Kernel) (id pos : CInt) (d : Descriptor) : Prop :=
  ∃ v k', k.trap (.seek pos id) = .ok (v, k') ∧
    (0 ≤ k.seekTarget d pos ∧ k.seekTarget d pos ≤ k.fileLength d →
      k'.r2 = k.seekTarget d pos ∧ k'.position id.toInt = some (k.seekTarget d pos).toNat) ∧
    (¬ (0 ≤ k.seekTarget d pos ∧ k.seekTarget d pos ≤ k.fileLength d) →
      k'.r2 = -1 ∧ k'.position id.toInt = k.position id.toInt) ∧
    ∀ other : Nat, other < MAX_FILE_OPEN → (other : Int) ≠ id.toInt →
      k'.position other = k.position other

/-- `Length` leaves the descriptor at the end. -/
theorem length_ready {h : Host} (ready : Ready h f d) :
    f.length h = .ok (((h.contents d.inode).length : Int),
      h.moveTo f.file d (h.contents d.inode).length) := by
  have small := ready.small
  have aim : h.seekTarget d 0 .fromEnd = ((h.contents d.inode).length : Nat) := add_zero _
  have there : (h.moveTo f.file d (h.contents d.inode).length).fds f.file =
      some { d with offset := (h.contents d.inode).length } := Host.moveTo_self _
  have nonneg : (0 : Int) ≤ (h.contents d.inode).length := by omega
  simp only [OpenFile.length, Lseek, Host.lseek_open ready.isOpen aim small, check_true nonneg,
    Exec.ok_bind, OpenFile.Tell_open there small]

/-- The object is ready wherever the descriptor is. -/
theorem ready_moved {h : Host} (ready : Ready h f d) {offset : Nat} (max : offset ≤ OFF_MAX) :
    Ready (h.moveTo f.file d offset) f { d with offset } :=
  ⟨Host.moveTo_self _, ready.readable, ready.writable, max, ready.small⟩

theorem moveTo_moveTo (h : Host) (fd : Nat) (d : Descriptor) (first second : Nat) :
    (h.moveTo fd d first).moveTo fd { d with offset := first } second = h.moveTo fd d second := by
  unfold Host.moveTo
  simp only [Function.update_idem]

/-- The two calls of `Length` before the test. -/
theorem seekPosition_ready (pos : CInt) (ready : Ready k.host f d) :
    ∃ host, k.seekPosition f pos.toInt = .ok (k.seekTarget d pos, host) ∧
      f.length host = .ok ((k.fileLength d : Int), k.host.moveTo f.file d (k.fileLength d)) := by
  have first := length_ready ready
  unfold seekPosition seekTarget fileLength
  split
  next =>
    have second := length_ready (ready_moved ready ready.small)
    rw [moveTo_moveTo] at second
    exact ⟨_, first, second⟩
  next => exact ⟨_, rfl, first⟩

/-- `Seek` to a place that `off_t` can express. -/
theorem seek_ready {h : Host} (ready : Ready h f d) {p : Nat} (max : p ≤ OFF_MAX) :
    f.seek h p = .ok ((p : Int), { f with currentOffset := p }, h.moveTo f.file d p) := by
  have there : (h.moveTo f.file d p).fds f.file = some { d with offset := p } := Host.moveTo_self p
  simp only [OpenFile.seek, OpenFile.Lseek_set ready.isOpen max, Exec.ok_bind,
    OpenFile.Tell_open there max]

/-- `SysSeek` on an open file: a place outside of the file costs the position. -/
theorem trap_seek_file (pos : CInt) (isOpen : k.OpenAt id a f d) :
    k.trap (.seek pos id) =
      if 0 ≤ k.seekTarget d pos ∧ k.seekTarget d pos ≤ k.fileLength d then
        .ok (some (k.seekTarget d pos), { k.setObject a
          { f with currentOffset := k.seekTarget d pos } with
            host := k.host.moveTo f.file d (k.seekTarget d pos).toNat
            r2 := k.seekTarget d pos })
      else .ok (some (-1), { k with host := k.host.moveTo f.file d (k.fileLength d), r2 := -1 }) := by
  have range := isOpen.range
  have accepted : ¬ (id.toInt < 2 ∨ id.toInt > MAX_FILE_OPEN) := by omega
  have console : ¬ (id.toInt = 0 ∨ id.toInt = 1) := by omega
  have slot : Kernel.slot { k with r2 := 9 } id.toInt = .ok (some a) := isOpen.slot
  have object : Kernel.object { k with r2 := 9 } a = .ok f := object_eq_ok.mpr isOpen.object
  obtain ⟨host, first, second⟩ := seekPosition_ready pos isOpen.ready
  have first : Kernel.seekPosition { k with r2 := 9 } f pos.toInt = .ok (k.seekTarget d pos, host) :=
    first
  have small : k.fileLength d ≤ OFF_MAX := isOpen.ready.small
  simp only [trap, FileCall.code, handle, sysSeek, if_neg accepted, slot, Exec.ok_bind,
    if_neg console, seekObject, object, first, second]
  by_cases inside : 0 ≤ k.seekTarget d pos ∧ k.seekTarget d pos ≤ k.fileLength d
  · rw [if_pos inside, if_neg (by omega)]
    obtain ⟨p, hp⟩ := Int.eq_ofNat_of_zero_le inside.1
    have bound : p ≤ OFF_MAX := by omega
    have sought := seek_ready (ready_moved isOpen.ready small) bound
    rw [moveTo_moveTo] at sought
    simp only [hp, sought, Exec.ok_bind, Int.toNat_natCast]
    rfl
  · rw [if_neg inside, if_pos (by omega)]
    rfl

/-- In a sound table every slot from 2 on that is filled leads to an open file. -/
theorem Sound.openAt (sound : k.Sound foreign) (id : CInt)
    (range : 2 ≤ id.toInt ∧ id.toInt < MAX_FILE_OPEN)
    (filled : (k.openf id.toInt.toNat).isSome = true) : ∃ a f d, k.OpenAt id a f d := by
  obtain ⟨a, pointer⟩ := Option.isSome_iff_exists.mp filled
  have live := (sound.objects.marked_iff a).mpr ⟨⟨id.toInt.toNat, by omega⟩, by simp [pointer]⟩
  obtain ⟨f, object⟩ := Option.isSome_iff_exists.mp live
  obtain ⟨d, ready⟩ := sound.ready a f object
  exact ⟨a, f, d, range, pointer, object, ready⟩

/-- Ids lead to objects of their own, with descriptors of their own. -/
theorem position_other (sound : k.Sound foreign) (isOpen : k.OpenAt id a f d) {other : Nat}
    (range : other < MAX_FILE_OPEN) (apart : (other : Int) ≠ id.toInt) (openf : k'.openf = k.openf)
    (objects : ∀ b ≠ a, k'.objects b = k.objects b)
    (fds : ∀ fd ≠ f.file, k'.host.fds fd = k.host.fds fd) :
    k'.position other = k.position other := by
  have inside := isOpen.range
  unfold position
  rw [openf, Int.toNat_natCast]
  cases pointer : k.openf other with
  | none => rfl
  | some b =>
    have distinct : b ≠ a := by
      rintro rfl
      have same := sound.objects.disjoint ⟨other, range⟩ ⟨id.toInt.toNat, by omega⟩ b
        (by simp [pointer]) (by simp [isOpen.pointer])
      have := congrArg Fin.val same
      dsimp only at this
      omega
    simp only [Option.bind_eq_bind, Option.bind_some, objects b distinct]
    cases there : k.objects b with
    | none => rfl
    | some g =>
      have separate : g.file ≠ f.file := by
        intro shared
        have same := sound.descriptors.disjoint (.object b) (.object a) g.file
          (by simp [descriptors, there]) (by simp [descriptors, isOpen.object, shared])
        cases same
        exact distinct rfl
      simp only [Option.bind_some, fds g.file separate]

end Kernel

/-- `Seek` keeps its promise exactly if the place is inside of the file, or the position
was at the end already. -/
theorem seek_exact_iff {s : Session} (reachable : fileCalls.Reachable s) {id : CInt} {a : Nat}
    {f : OpenFile} {d : Descriptor} (isOpen : s.kernel.OpenAt id a f d) (pos : CInt) :
    s.kernel.SeeksExactly id pos d ↔
      (0 ≤ s.kernel.seekTarget d pos ∧ s.kernel.seekTarget d pos ≤ s.kernel.fileLength d) ∨
        d.offset = s.kernel.fileLength d := by
  have sound := (Session.reachable_sound reachable).kernel
  have call := Kernel.trap_seek_file pos isOpen
  have before := Kernel.position_eq isOpen.pointer isOpen.object isOpen.ready.isOpen
  unfold Kernel.SeeksExactly
  by_cases inside : 0 ≤ s.kernel.seekTarget d pos ∧ s.kernel.seekTarget d pos ≤ s.kernel.fileLength d
  · rw [if_pos inside] at call
    refine iff_of_true ⟨_, _, call, fun _ => ⟨rfl, ?_⟩, fun outside => absurd inside outside,
      fun other range apart => ?_⟩ (.inl inside)
    · exact Kernel.position_eq (k := { s.kernel.setObject a
            { f with currentOffset := s.kernel.seekTarget d pos } with
          host := s.kernel.host.moveTo f.file d (s.kernel.seekTarget d pos).toNat
          r2 := s.kernel.seekTarget d pos })
        isOpen.pointer (Function.update_self _ _ _) (Host.moveTo_self _)
    · exact Kernel.position_other sound isOpen range apart rfl
        (fun b other => Function.update_of_ne other _ _) fun fd other => Host.moveTo_other _ other
  · rw [if_neg inside] at call
    have after : Kernel.position { s.kernel with
        host := s.kernel.host.moveTo f.file d (s.kernel.fileLength d), r2 := -1 } id.toInt =
          some (s.kernel.fileLength d) :=
      Kernel.position_eq (k := { s.kernel with
          host := s.kernel.host.moveTo f.file d (s.kernel.fileLength d), r2 := -1 })
        isOpen.pointer isOpen.object (Host.moveTo_self _)
    constructor
    · rintro ⟨v, k', run, _, refused, _⟩
      rw [call] at run
      cases run
      obtain ⟨_, kept⟩ := refused inside
      rw [after, before] at kept
      exact .inr (Option.some.inj kept).symm
    · rintro (target | atEnd)
      · exact absurd target inside
      · refine ⟨_, _, call, fun target => absurd target inside, fun _ => ⟨rfl, ?_⟩,
          fun other range apart => ?_⟩
        · rw [after, before, atEnd]
        · exact Kernel.position_other sound isOpen range apart rfl (fun _ _ => rfl)
            fun fd other => Host.moveTo_other _ other

/-- A seek to the end, after five bytes have been written. -/
theorem seek_exact_iff_end : ∃ s d, fileCalls.Reachable s ∧ s.kernel.SeeksExactly 2 (-1) d := by
  have run : (sampleRun [.openFile 0 0 (some 7), .write 0 5 2]).map
      (fun s => (s.kernel.openf 2).isSome) = some true := by decide +kernel
  obtain ⟨s, reached, filled⟩ := Option.map_eq_some_iff.mp run
  obtain ⟨s₀, start, _, rest⟩ := sampleRun_cases reached
  have reachable : fileCalls.Reachable s := (Machine.Reachable.init start).run _ rest
  obtain ⟨a, f, d, isOpen⟩ := (Session.reachable_sound reachable).kernel.openAt 2 (by decide)
    filled
  refine ⟨s, d, reachable, (seek_exact_iff reachable isOpen (-1)).mpr (.inl ?_)⟩
  have target : s.kernel.seekTarget d (-1) = s.kernel.fileLength d := if_pos (by decide)
  rw [target]
  omega

/-- A seek behind the end of a file of five bytes, at whose start the program is. -/
theorem seek_refused_moves : ¬ ∀ s, fileCalls.Reachable s → ∀ (id : CInt) (a : Nat) (f : OpenFile)
    (d : Descriptor), s.kernel.OpenAt id a f d → ∀ pos, s.kernel.SeeksExactly id pos d := by
  intro exact
  have run : (sampleRun [.openFile 0 0 (some 7), .write 0 5 2, .seek 0 2]).map
      (fun s => ((s.kernel.openf 2).isSome, s.kernel.position 2,
        (s.kernel.trap (.seek 9 2)).toOption.map fun r => (r.2.r2, r.2.position 2))) =
      some (true, some 0, some (-1, some 5)) := by decide +kernel
  obtain ⟨s, reached, observed⟩ := Option.map_eq_some_iff.mp run
  injection observed with filled observed
  injection observed with before observed
  obtain ⟨s₀, start, _, rest⟩ := sampleRun_cases reached
  have reachable : fileCalls.Reachable s := (Machine.Reachable.init start).run _ rest
  obtain ⟨a, f, d, isOpen⟩ := (Session.reachable_sound reachable).kernel.openAt 2 (by decide)
    filled
  obtain ⟨v, k', seek, hit, miss, _⟩ := exact s reachable 2 a f d isOpen 9
  rw [seek] at observed
  injection Option.some.inj observed with result after
  by_cases inside : 0 ≤ s.kernel.seekTarget d 9 ∧ s.kernel.seekTarget d 9 ≤ s.kernel.fileLength d
  · have target : s.kernel.seekTarget d 9 = 9 := if_neg (by decide)
    rw [(hit inside).1, target] at result
    exact absurd result (by decide)
  · have kept : k'.position 2 = s.kernel.position 2 := (miss inside).2
    rw [after, before] at kept
    exact absurd kept (by decide)

end NachOS.Stub
