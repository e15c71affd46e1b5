import NachOS.Userprog.FileCalls
import NachOS.Lib.Ownership

/-!
# The open-file table over runs of system calls

Each call of the kernel does one of three things to the table: nothing (only
positions move), fill a free slot with a new object over a new descriptor, or empty
one slot and close its descriptor. The objects and the descriptors are owned
exactly, by the slots of the table and by whoever had descriptors open before.
-/
namespace NachOS.Stub
open NachOS.Lib NachOS.Filesys

/-- An object whose descriptor is open as its type says. -/
structure Ready (h : Host) (f : OpenFile) (d : Descriptor) : Prop where
  isOpen : h.fds f.file = some d
  readable : d.readable = true
  writable : f.type = 0 → d.writable = true
  offset : d.offset ≤ OFF_MAX
  small : (h.contents d.inode).length ≤ OFF_MAX

/-- The object apart from its position. -/
def OpenFile.atStart (f : OpenFile) : OpenFile := { f with currentOffset := 0 }

namespace OpenFile

variable {f f' : OpenFile} {h h' : Host} {d : Descriptor}

theorem of_atStart (same : f'.atStart = f.atStart) : f'.file = f.file ∧ f'.type = f.type := by
  injection same with file _ type
  exact ⟨file, type⟩

theorem Lseek_quiet {fd : Nat} {offset : Int} {whence : Whence}
    (run : Lseek h fd offset whence = .ok h') : h.Quiet h' := by
  unfold Lseek at run
  obtain ⟨_, _, rest⟩ := Exec.bind_eq_ok.mp run
  cases rest
  exact Host.lseek_quiet offset whence

theorem length_quiet {n : Int} (run : f.length h = .ok (n, h')) : h.Quiet h' := by
  obtain ⟨h₁, sought, rest⟩ := Exec.bind_eq_ok.mp run
  cases rest
  exact Lseek_quiet sought

theorem seek_quiet {n pos : Int} (run : f.seek h pos = .ok (n, f', h')) :
    f'.atStart = f.atStart ∧ h.Quiet h' := by
  obtain ⟨h₁, sought, rest⟩ := Exec.bind_eq_ok.mp run
  cases rest
  exact ⟨rfl, Lseek_quiet sought⟩

theorem write_quiet {n numBytes : Int} {data : Buf}
    (run : f.write h data numBytes = .ok (n, f', h')) : f'.atStart = f.atStart ∧ h.Quiet h' := by
  obtain ⟨⟨n₁, h₁⟩, wrote, rest⟩ := Exec.bind_eq_ok.mp run
  cases rest
  obtain ⟨h₂, sought, written⟩ := Exec.bind_eq_ok.mp wrote
  obtain ⟨h₃, stored, rest⟩ := Exec.bind_eq_ok.mp written
  cases rest
  unfold WriteFile at stored
  obtain ⟨_, _, rest⟩ := Exec.bind_eq_ok.mp stored
  cases rest
  exact ⟨rfl, (Lseek_quiet sought).trans (Host.write_quiet data _)⟩

end OpenFile

namespace Ready

variable {f f' : OpenFile} {h h' : Host} {d : Descriptor}

/-- An object stays ready while its descriptor only moves. -/
theorem keep (ready : Ready h f d) (same : f'.atStart = f.atStart) (quiet : h.Quiet h') :
    ∃ d', Ready h' f' d' := by
  obtain ⟨file, type⟩ := OpenFile.of_atStart same
  have there := quiet.descriptors f.file
  rw [ready.isOpen, Option.map_some, Option.map_eq_some_iff] at there
  obtain ⟨d', isOpen, start⟩ := there
  injection start with inode _ readable writable
  refine ⟨d', file ▸ isOpen, readable.trans ready.readable, ?_, ?_, ?_⟩
  · intro zero
    exact writable.trans (ready.writable (type ▸ zero))
  · rcases quiet.offsets _ _ isOpen with bound | before
    · exact bound
    · rw [ready.isOpen] at before
      cases before
      exact ready.offset
  · rw [inode]
    exact quiet.bounds _ ready.small

theorem available_le (ready : Ready h f d) (n : Nat) :
    d.offset + (h.available d n).length ≤ OFF_MAX := by
  have small := ready.small
  have offset := ready.offset
  unfold Host.available
  rw [List.length_take, List.length_drop]
  omega

/-- A read at the position of the descriptor: it delivers what is there, and the
descriptor advances by as much. -/
theorem read (ready : Ready h f d) (n : Nat) :
    ({ f with currentOffset := d.offset } : OpenFile).read h n =
        .ok (((h.available d n).length : Int), h.available d n,
          { f with currentOffset := d.offset + (h.available d n).length },
          h.moveTo f.file d (d.offset + (h.available d n).length)) ∧
      Tell (h.moveTo f.file d (d.offset + (h.available d n).length)) f.file =
        d.offset + (h.available d n).length := by
  have bound := ready.available_le n
  have transfer := Host.read_open ready.isOpen ready.readable n
  have sum : int32 (d.offset + (h.available d n).length) = d.offset + (h.available d n).length := by
    have top : (OFF_MAX : Int) = 2147483647 := rfl
    exact int32_of_range (by omega) (by omega)
  have moved : (h.moveTo f.file d (d.offset + (h.available d n).length)).fds f.file =
      some { d with offset := d.offset + (h.available d n).length } := Host.moveTo_self _
  constructor
  · simp only [OpenFile.read, OpenFile.readAt, OpenFile.Lseek_set ready.isOpen ready.offset,
      Host.moveTo_here ready.isOpen, Exec.ok_bind, transfer, sum]
  · exact (OpenFile.Tell_open moved bound).trans (Nat.cast_add _ _)

/-- A write at the position of the descriptor, if the host has room for it. -/
theorem write (ready : Ready h f d) (readWrite : f.type = 0) (data : Buf) (n : Nat) :
    (d.offset + n ≤ OFF_MAX ∧
      ({ f with currentOffset := d.offset } : OpenFile).write h data n =
        .ok ((n : Int), { f with currentOffset := d.offset + n }, (h.write f.file data n).2) ∧
      Tell (h.write f.file data n).2 f.file = d.offset + n) ∨
    (OFF_MAX < d.offset + n ∧
      ({ f with currentOffset := d.offset } : OpenFile).write h data n = .error .assertion) := by
  have top : (OFF_MAX : Int) = 2147483647 := rfl
  rcases Host.write_cases ready.isOpen (ready.writable readWrite) data n with
    ⟨bound, returned, moved⟩ | ⟨bound, refused⟩
  · have sum : int32 (d.offset + n) = d.offset + n := int32_of_range (by omega) (by omega)
    refine .inl ⟨bound, ?_, ?_⟩
    · simp only [OpenFile.write, OpenFile.writeAt, OpenFile.Lseek_set ready.isOpen ready.offset,
        Host.moveTo_here ready.isOpen, Exec.ok_bind, WriteFile, check_true returned, sum]
    · exact (OpenFile.Tell_open moved bound).trans (Nat.cast_add _ _)
  · have fails : ¬ (-1 : Int) = n := by omega
    refine .inr ⟨bound, ?_⟩
    simp only [OpenFile.write, OpenFile.writeAt, OpenFile.Lseek_set ready.isOpen ready.offset,
      Host.moveTo_here ready.isOpen, Exec.ok_bind, WriteFile, refused, check, if_neg fails]
    rfl

end Ready

/-- A call that moves positions at most. -/
structure Kernel.Quiet (k k' : Kernel) : Prop where
  openf : k'.openf = k.openf
  objects : ∀ a, (k'.objects a).map OpenFile.atStart = (k.objects a).map OpenFile.atStart
  nextObject : k'.nextObject = k.nextObject
  host : k.host.Quiet k'.host

/-- Who holds descriptors of the host: someone else, or an object. -/
inductive FdOwner where
  | foreign (fd : Nat)
  | object (a : Nat)
  deriving DecidableEq

def Kernel.descriptors (k : Kernel) (foreign : Nat → Bool) : FdOwner → List Nat
  | .foreign fd => if foreign fd then [fd] else []
  | .object a => ((k.objects a).map OpenFile.file).toList

/-- The table and what it leads to: no pointer is shared or dangling, no object is
lost, every object has an open descriptor of its own, and no other descriptor is
open but those that are `foreign`. -/
structure Kernel.Sound (foreign : Nat → Bool) (k : Kernel) : Prop where
  objects : Exact (fun a => (k.objects a).isSome = true)
    (fun i : Fin MAX_FILE_OPEN => (k.openf i).toList)
  descriptors : Exact (fun fd => (k.host.fds fd).isSome = true) (k.descriptors foreign)
  ready : ∀ a f, k.objects a = some f → ∃ d, Ready k.host f d
  fresh : ∀ a, k.nextObject ≤ a → k.objects a = none

namespace Kernel

variable {k k' : Kernel} {foreign : Nat → Bool}

theorem Quiet.of_host {host : Host} (quiet : k.host.Quiet host) : k.Quiet { k with host } :=
  ⟨rfl, fun _ => rfl, rfl, quiet⟩

theorem Quiet.refl (k : Kernel) : k.Quiet k := ⟨rfl, fun _ => rfl, rfl, .refl _⟩

/-- An object changes its position. -/
theorem Quiet.of_object {a : Nat} {f f' : OpenFile} {host : Host} {memory : UserMemory}
    {output : List Byte} (there : k.objects a = some f) (same : f'.atStart = f.atStart)
    (quiet : k.host.Quiet host) : k.Quiet { k.setObject a f' with host, memory, output } := by
  refine ⟨rfl, fun b => ?_, rfl, quiet⟩
  by_cases here : b = a
  · simp only [setObject, here, Function.update_self, there, Option.map_some, same]
  · simp only [setObject, Function.update_of_ne here]

theorem Quiet.sound (quiet : k.Quiet k') (sound : k.Sound foreign) : k'.Sound foreign where
  objects := by
    apply sound.objects.congr
    · intro a
      have same := congrArg Option.isSome (quiet.objects a)
      rw [Option.isSome_map, Option.isSome_map] at same
      rw [same]
    · intro i
      rw [quiet.openf]
  descriptors := by
    apply sound.descriptors.congr
    · intro fd
      rw [quiet.host.isSome fd]
    · intro o
      cases o with
      | foreign fd => rfl
      | object a =>
        have same := congrArg (Option.map OpenFile.file) (quiet.objects a)
        rw [Option.map_map, Option.map_map] at same
        exact congrArg Option.toList same
  ready := by
    intro a f' there
    have same := quiet.objects a
    rw [there, Option.map_some] at same
    obtain ⟨f, before, start⟩ := Option.map_eq_some_iff.mp same.symm
    obtain ⟨d, ready⟩ := sound.ready a f before
    exact ready.keep start.symm quiet.host
  fresh := by
    intro a late
    rw [quiet.nextObject] at late
    have same := quiet.objects a
    rw [sound.fresh a late] at same
    exact Option.map_eq_none_iff.mp same

theorem object_eq_ok {a : Nat} {f : OpenFile} : k.object a = .ok f ↔ k.objects a = some f := by
  unfold object
  cases k.objects a with
  | none => simp
  | some g => simp

/-- `SysRead` on a file, at the position of its descriptor. -/
theorem readObject_file {a n : Nat} {f : OpenFile} {d : Descriptor} (virtAddr : Int)
    (typed : List Byte) (there : k.objects a = some f) (ready : Ready k.host f d)
    (file : f.type ≠ 2 ∧ f.type ≠ 3) :
    k.readObject a virtAddr n typed =
      let data := k.host.available d n
      let f' : OpenFile := { f with currentOffset := d.offset + data.length }
      let host := k.host.moveTo f.file d (d.offset + data.length)
      if 0 < data.length then do
        let memory ← k.memory.system2User virtAddr data.length (bufferOf data)
        .ok ((data.length : Int), { k.setObject a f' with host, memory })
      else .ok (-2, { k.setObject a f' with host }) := by
  obtain ⟨run, after⟩ := ready.read n
  have bound := ready.available_le n
  have top : (OFF_MAX : Int) = 2147483647 := rfl
  have start := OpenFile.Tell_open ready.isOpen ready.offset
  generalize k.host.available d n = data at run after bound
  have moved : int32 ((d.offset : Int) + data.length - d.offset) = data.length := by
    rw [add_sub_cancel_left]
    exact int32_of_range (by omega) (by omega)
  unfold readObject
  rw [object_eq_ok.mpr there, Exec.ok_bind, if_neg file.2]
  simp only [OpenFile.getCurrentPos, start, if_neg file.1, run, Exec.ok_bind, after, moved,
    gt_iff_lt, Int.natCast_pos]

theorem readObject_quiet (sound : k.Sound foreign) {a n : Nat} {virtAddr v : Int} {typed : List Byte}
    (run : k.readObject a virtAddr n typed = .ok (v, k')) : k.Quiet k' := by
  obtain ⟨f, there, rest⟩ := Exec.bind_eq_ok.mp run
  have present := object_eq_ok.mp there
  obtain ⟨d, ready⟩ := sound.ready a f present
  by_cases console : f.type = 3
  · rw [if_pos console] at rest
    cases rest
    exact .refl k
  · rw [if_neg console] at rest
    by_cases line : f.type = 2
    · simp only [OpenFile.getCurrentPos] at rest
      rw [if_pos line] at rest
      obtain ⟨memory, _, rest⟩ := Exec.bind_eq_ok.mp rest
      cases rest
      exact Quiet.of_object present rfl (.refl _)
    · have quiet := Host.moveTo_quiet ready.isOpen (ready.available_le n)
      rw [readObject_file virtAddr typed present ready ⟨line, console⟩] at run
      simp only at run
      split at run
      next =>
        obtain ⟨memory, _, rest⟩ := Exec.bind_eq_ok.mp run
        cases rest
        exact Quiet.of_object present rfl quiet
      next =>
        cases run
        exact Quiet.of_object present rfl quiet

/-- `SysWrite` on a file that is open for writing, at the position of its descriptor:
it aborts if the file would become too long. -/
theorem writeObject_file {a n : Nat} {f : OpenFile} {d : Descriptor} {virtAddr : Int}
    {text : List Byte} (there : k.objects a = some f) (ready : Ready k.host f d)
    (readWrite : f.type = 0) (buffer : k.memory.user2System virtAddr n = .ok text) :
    (d.offset + n ≤ OFF_MAX ∧ k.writeObject a virtAddr n =
      .ok (if 0 < n then some (n : Int) else none,
        { k.setObject a { f with currentOffset := d.offset + n } with
          host := (k.host.write f.file (bufferOf text) n).2 })) ∨
    (OFF_MAX < d.offset + n ∧ k.writeObject a virtAddr n = .error .assertion) := by
  have top : (OFF_MAX : Int) = 2147483647 := rfl
  have start := OpenFile.Tell_open ready.isOpen ready.offset
  have accepted : ¬ (f.type = 1 ∨ f.type = 2) := by omega
  unfold writeObject
  rw [object_eq_ok.mpr there, Exec.ok_bind, if_neg accepted]
  simp only [OpenFile.getCurrentPos, start, buffer, Exec.ok_bind]
  rw [if_pos readWrite]
  rcases ready.write readWrite (bufferOf text) n with ⟨room, run, after⟩ | ⟨full, aborts⟩
  · have moved : int32 ((d.offset : Int) + n - d.offset) = n := by
      rw [add_sub_cancel_left]
      exact int32_of_range (by omega) (by omega)
    refine .inl ⟨room, ?_⟩
    rw [run, Exec.ok_bind]
    by_cases positive : 0 < n
    · have some_written : (n : Int) > 0 := by omega
      simp only [if_pos some_written, if_pos positive, after, moved]
    · have none_written : ¬ (n : Int) > 0 := by omega
      simp only [if_neg none_written, if_neg positive]
  · refine .inr ⟨full, ?_⟩
    rw [aborts]
    rfl

theorem writeObject_quiet {a : Nat} {virtAddr charcount : Int} {v : Option Int}
    (run : k.writeObject a virtAddr charcount = .ok (v, k')) : k.Quiet k' := by
  obtain ⟨f, there, rest⟩ := Exec.bind_eq_ok.mp run
  have present := object_eq_ok.mp there
  by_cases refused : f.type = 1 ∨ f.type = 2
  · rw [if_pos refused] at rest
    cases rest
    exact .refl k
  · rw [if_neg refused] at rest
    simp only [OpenFile.getCurrentPos] at rest
    obtain ⟨text, _, rest⟩ := Exec.bind_eq_ok.mp rest
    by_cases readWrite : f.type = 0
    · rw [if_pos readWrite] at rest
      obtain ⟨⟨numWritten, f₁, host⟩, wrote, rest⟩ := Exec.bind_eq_ok.mp rest
      obtain ⟨same, quiet⟩ := OpenFile.write_quiet wrote
      by_cases some_written : numWritten > 0
      · simp only [if_pos some_written] at rest
        cases rest
        exact Quiet.of_object present same quiet
      · simp only [if_neg some_written] at rest
        cases rest
        exact Quiet.of_object present same quiet
    · rw [if_neg readWrite] at rest
      split at rest
      next =>
        cases rest
        exact Quiet.of_object present rfl (.refl _)
      next =>
        cases rest
        exact Quiet.of_object present rfl (.refl _)

theorem seekObject_quiet {a : Nat} {pos v : Int} (run : k.seekObject a pos = .ok (v, k')) :
    k.Quiet k' := by
  obtain ⟨f, there, rest⟩ := Exec.bind_eq_ok.mp run
  have present := object_eq_ok.mp there
  obtain ⟨⟨target, host₁⟩, first, rest⟩ := Exec.bind_eq_ok.mp rest
  obtain ⟨⟨length, host₂⟩, second, rest⟩ := Exec.bind_eq_ok.mp rest
  have quiet₁ : k.host.Quiet host₁ := by
    unfold seekPosition at first
    split at first
    next => exact OpenFile.length_quiet first
    next =>
      cases first
      exact .refl _
  have quiet₂ := quiet₁.trans (OpenFile.length_quiet second)
  by_cases beyond : target > length ∨ target < 0
  · simp only [if_pos beyond] at rest
    cases rest
    exact .of_host quiet₂
  · simp only [if_neg beyond] at rest
    obtain ⟨⟨_, f₁, host₃⟩, sought, rest⟩ := Exec.bind_eq_ok.mp rest
    obtain ⟨same, quiet₃⟩ := OpenFile.seek_quiet sought
    cases rest
    exact Quiet.of_object present same (quiet₂.trans quiet₃)

/-- The parts of `SysRead`, `SysWrite` and `SysSeek` that look at the slot. -/
theorem slot_quiet {α : Type} {id : Int} {failed v : α} {rest : Nat → Exec (α × Kernel)}
    (object : ∀ a, rest a = .ok (v, k') → k.Quiet k')
    (run : (do
      let slot ← k.slot id
      match slot with
      | none => .ok (failed, k)
      | some a => rest a) = .ok (v, k')) : k.Quiet k' := by
  obtain ⟨slot, _, run⟩ := Exec.bind_eq_ok.mp run
  cases slot with
  | none =>
    cases run
    exact .refl k
  | some a => exact object a run

theorem sysRead_quiet (sound : k.Sound foreign) {virtAddr id v : Int} {n : Nat} {typed : List Byte}
    (run : k.sysRead virtAddr n id typed = .ok (v, k')) : k.Quiet k' := by
  unfold sysRead at run
  split at run
  next =>
    cases run
    exact .refl k
  next => exact slot_quiet (fun a => readObject_quiet sound) run

theorem sysWrite_quiet {virtAddr charcount id : Int} {v : Option Int}
    (run : k.sysWrite virtAddr charcount id = .ok (v, k')) : k.Quiet k' := by
  unfold sysWrite at run
  split at run
  next =>
    cases run
    exact .refl k
  next => exact slot_quiet (fun a => writeObject_quiet) run

theorem sysSeek_quiet {pos id v : Int} (run : k.sysSeek pos id = .ok (v, k')) : k.Quiet k' := by
  unfold sysSeek at run
  split at run
  next =>
    cases run
    exact .refl k
  next =>
    refine slot_quiet (fun a step => ?_) run
    split at step
    next =>
      cases step
      exact .refl k
    next => exact seekObject_quiet step

theorem sysRemove_quiet (filename : List Byte) (permitted : Bool) :
    k.Quiet (k.sysRemove filename permitted).2 :=
  .of_host (Host.unlink_quiet filename permitted)

/-- `Create` closes the descriptor it opens. -/
theorem create_fds {h h' : Host} {name : List Byte} {grant : Option Nat}
    (run : create h name grant = .ok h') : h'.fds = h.fds ∧ h.KeepsBounds h' := by
  obtain ⟨⟨fd, h₁⟩, opened, closed⟩ := Exec.bind_eq_ok.mp run
  unfold OpenForWrite at opened
  rcases h.openFile_cases name .truncate grant with
    failed | ⟨fd', inode, host, success, unopened, fds, bounds, _⟩
  · rw [failed] at opened
    cases opened
  · rw [success] at opened
    cases opened
    obtain ⟨_, after⟩ := Close_eq_ok.mp closed
    rw [after]
    refine ⟨?_, bounds⟩
    change Function.update h₁.fds fd none = h.fds
    rw [fds]
    exact Host.fds_reopened unopened

theorem sysCreateFile_quiet {filename : List Byte} {grant : Option Nat} {v : Int}
    (run : k.sysCreateFile filename grant = .ok (v, k')) : k.Quiet k' := by
  unfold sysCreateFile at run
  split at run
  next =>
    cases run
    exact .refl k
  next =>
    obtain ⟨host, made, run⟩ := Exec.bind_eq_ok.mp run
    cases run
    obtain ⟨same, bounds⟩ := create_fds made
    exact .of_host (.of_fds same bounds)

/-- A free slot is filled with a new object over a new descriptor. -/
structure Installed (k : Kernel) (slot : Nat) (f : OpenFile) (k' : Kernel) : Prop where
  range : slot < MAX_FILE_OPEN
  free : k.openf slot = none
  openf : k'.openf = Function.update k.openf slot (some k.nextObject)
  objects : k'.objects = Function.update k.objects k.nextObject (some f)
  nextObject : k'.nextObject = k.nextObject + 1
  unopened : k.host.fds f.file = none
  ready : ∃ d, k'.host.fds = Function.update k.host.fds f.file (some d) ∧ Ready k'.host f d
  bounds : k.host.KeepsBounds k'.host

/-- A slot is emptied, its object deleted and its descriptor closed. -/
structure Emptied (k : Kernel) (slot a : Nat) (f : OpenFile) (k' : Kernel) : Prop where
  range : slot < MAX_FILE_OPEN
  pointer : k.openf slot = some a
  object : k.objects a = some f
  openf : k'.openf = Function.update k.openf slot none
  objects : k'.objects = Function.update k.objects a none
  nextObject : k'.nextObject = k.nextObject
  fds : k'.host.fds = Function.update k.host.fds f.file none
  contents : k'.host.contents = k.host.contents

namespace Installed

variable {slot : Nat} {f : OpenFile}

theorem objects_exact (i : k.Installed slot f k') (sound : k.Sound foreign) :
    Exact (fun a => (k'.objects a).isSome = true)
      (fun i : Fin MAX_FILE_OPEN => (k'.openf i).toList) := by
  apply sound.objects.assign ⟨slot, i.range⟩ (l := [k.nextObject])
  · simp only [i.free, Option.toList_none]
  · exact List.nodup_singleton _
  · intro a ha
    rw [List.mem_singleton.mp ha, sound.fresh _ le_rfl]
    decide
  · intro a
    rw [i.objects, List.mem_singleton, Function.update_apply]
    split
    next same => simp [same]
    next other => simp [other]
  · simp only [i.openf, Function.update_self, Option.toList_some]
  · intro j other
    have apart : (j : Nat) ≠ slot := fun same => other (Fin.ext same)
    simp only [i.openf, Function.update_of_ne apart]

theorem descriptors_exact (i : k.Installed slot f k') (sound : k.Sound foreign) :
    Exact (fun fd => (k'.host.fds fd).isSome = true) (k'.descriptors foreign) := by
  obtain ⟨d, fds, _⟩ := i.ready
  apply sound.descriptors.assign (.object k.nextObject) (l := [f.file])
  · simp only [descriptors, sound.fresh _ le_rfl, Option.map_none, Option.toList_none]
  · exact List.nodup_singleton _
  · intro fd hfd
    rw [List.mem_singleton.mp hfd, i.unopened]
    decide
  · intro fd
    rw [fds, List.mem_singleton, Function.update_apply]
    split
    next same => simp [same]
    next other => simp [other]
  · simp only [descriptors, i.objects, Function.update_self, Option.map_some, Option.toList_some]
  · intro o other
    cases o with
    | foreign fd => rfl
    | object a =>
      have apart : a ≠ k.nextObject := fun same => other (congrArg FdOwner.object same)
      simp only [descriptors, i.objects, Function.update_of_ne apart]

theorem sound (i : k.Installed slot f k') (sound : k.Sound foreign) : k'.Sound foreign := by
  refine ⟨i.objects_exact sound, i.descriptors_exact sound, ?_, ?_⟩
  · obtain ⟨d, fds, ready⟩ := i.ready
    intro a g there
    rw [i.objects, Function.update_apply] at there
    split at there
    next =>
      cases there
      exact ⟨d, ready⟩
    next =>
      obtain ⟨e, before⟩ := sound.ready a g there
      have apart : g.file ≠ f.file := by
        intro same
        have unopened := i.unopened
        rw [← same, before.isOpen] at unopened
        cases unopened
      refine ⟨e, ?_, before.readable, before.writable, before.offset, i.bounds _ before.small⟩
      rw [fds, Function.update_of_ne apart]
      exact before.isOpen
  · intro a late
    rw [i.nextObject] at late
    rw [i.objects, Function.update_of_ne (by omega)]
    exact sound.fresh a (by omega)

end Installed

namespace Emptied

variable {slot a : Nat} {f : OpenFile}

theorem objects_exact (c : k.Emptied slot a f k') (sound : k.Sound foreign) :
    Exact (fun a => (k'.objects a).isSome = true)
      (fun i : Fin MAX_FILE_OPEN => (k'.openf i).toList) := by
  apply sound.objects.release ⟨slot, c.range⟩
  · intro b
    simp only [c.objects, c.pointer, Option.toList_some, List.mem_singleton, Function.update_apply]
    split
    next same => simp [same]
    next other => simp [other]
  · simp only [c.openf, Function.update_self, Option.toList_none]
  · intro j other
    have apart : (j : Nat) ≠ slot := fun same => other (Fin.ext same)
    simp only [c.openf, Function.update_of_ne apart]

theorem descriptors_exact (c : k.Emptied slot a f k') (sound : k.Sound foreign) :
    Exact (fun fd => (k'.host.fds fd).isSome = true) (k'.descriptors foreign) := by
  apply sound.descriptors.release (.object a)
  · intro fd
    simp only [c.fds, descriptors, c.object, Option.map_some, Option.toList_some,
      List.mem_singleton, Function.update_apply]
    split
    next same => simp [same]
    next other => simp [other]
  · simp only [descriptors, c.objects, Function.update_self, Option.map_none, Option.toList_none]
  · intro o other
    cases o with
    | foreign fd => rfl
    | object b =>
      have apart : b ≠ a := fun same => other (congrArg FdOwner.object same)
      simp only [descriptors, c.objects, Function.update_of_ne apart]

theorem sound (c : k.Emptied slot a f k') (sound : k.Sound foreign) : k'.Sound foreign := by
  refine ⟨c.objects_exact sound, c.descriptors_exact sound, ?_, ?_⟩
  · intro b g there
    rw [c.objects, Function.update_apply] at there
    split at there
    next => cases there
    next other =>
      obtain ⟨e, before⟩ := sound.ready b g there
      have apart : g.file ≠ f.file := by
        intro same
        have held := sound.descriptors.disjoint (.object b) (.object a) f.file
        simp only [descriptors, there, c.object, Option.map_some, Option.toList_some,
          List.mem_singleton] at held
        injection held same.symm trivial with equal
        exact other equal
      refine ⟨e, ?_, before.readable, before.writable, before.offset, ?_⟩
      · rw [c.fds, Function.update_of_ne apart]
        exact before.isOpen
      · rw [c.contents]
        exact before.small
  · intro b late
    rw [c.nextObject] at late
    rw [c.objects, Function.update_apply]
    split
    next => rfl
    next => exact sound.fresh b late

end Emptied

/-- The outcomes of `FileSystem::Open(name, type)`: NULL, or a new object over a new
descriptor. -/
structure Opened (h : Host) (type : Int) (f : OpenFile) (h' : Host) : Prop where
  type : f.type = type
  unopened : h.fds f.file = none
  ready : ∃ d, h'.fds = Function.update h.fds f.file (some d) ∧ Ready h' f d
  bounds : h.KeepsBounds h'

theorem openFile_opened {h h' : Host} {name : List Byte} {type : Int} {grant : Option Nat}
    {mode : OpenMode} {fd : Nat} (writes : type = 0 → mode ≠ .readOnly)
    (run : h.openFile name mode grant = (some fd, h')) : Opened h type (OpenFile.new fd type) h' := by
  rcases h.openFile_cases name mode grant with
    failed | ⟨fd', inode, host, success, unopened, fds, bounds, small⟩
  · rw [failed] at run
    cases run
  · rw [success] at run
    cases run
    refine ⟨rfl, unopened, ⟨_, fds, ?_, rfl, ?_, Nat.zero_le _, small⟩, bounds⟩
    · rw [fds]
      exact Function.update_self _ _ _
    · exact fun zero => decide_eq_true (writes zero)

theorem openFile_none {h h' : Host} {name : List Byte} {grant : Option Nat} {mode : OpenMode}
    (run : h.openFile name mode grant = (none, h')) : h' = h := by
  rcases h.openFile_cases name mode grant with failed | ⟨fd, _, host, success, _⟩
  · rw [failed] at run
    cases run
    rfl
  · rw [success] at run
    cases run

theorem openType_cases {h h' : Host} {name : List Byte} {type : Int} {grant : Option Nat}
    {file : Option OpenFile} (run : openType h name type grant = .ok (file, h')) :
    file = none ∧ h' = h ∨ ∃ f, file = some f ∧ Opened h type f h' := by
  have made : ∀ mode, (type = 0 → mode ≠ .readOnly) →
      (.ok ((h.openFile name mode grant).1.map (OpenFile.new · type),
        (h.openFile name mode grant).2) : Exec _) = .ok (file, h') →
      file = none ∧ h' = h ∨ ∃ f, file = some f ∧ Opened h type f h' := by
    intro mode writes result
    cases opened : h.openFile name mode grant with
    | mk fd host =>
      rw [opened] at result
      cases result
      cases fd with
      | none => exact .inl ⟨rfl, openFile_none opened⟩
      | some fd => exact .inr ⟨_, rfl, openFile_opened writes opened⟩
  unfold openType at run
  split at run
  next => exact made .readWrite (fun _ => by decide) run
  next notZero =>
    split at run
    next => exact made .readOnly (fun zero => absurd zero notZero) run
    next =>
      split at run
      next =>
        obtain ⟨⟨fd, host⟩, opened, rest⟩ := Exec.bind_eq_ok.mp run
        cases rest
        unfold OpenForWrite at opened
        split at opened
        next success =>
          cases opened
          exact .inr ⟨_, rfl, openFile_opened (fun _ => by decide) success⟩
        next => cases opened
      next => cases run

theorem Opened.installed {type : Int} {f : OpenFile} {host : Host} {slot : Nat}
    (opened : Opened k.host type f host) (range : slot < MAX_FILE_OPEN)
    (free : k.openf slot = none) : k.Installed slot f ({ k with host }.install slot f) :=
  ⟨range, free, rfl, rfl, rfl, opened.unopened, opened.ready, opened.bounds⟩

theorem findFreeSlot_some {slot : Nat} (found : k.findFreeSlot = some slot) :
    2 ≤ slot ∧ slot < MAX_FILE_OPEN ∧ k.openf slot = none := by
  have free := List.find?_some found
  have member := List.mem_of_find?_eq_some found
  rw [List.mem_range'_1] at member
  unfold MAX_FILE_OPEN at *
  exact ⟨member.1, by omega, by simpa using free⟩

/-- Why `Open` fills no slot, with the value it writes to register 2: the table is
full, the type is one of the console, the host refuses the file, or the type is
unknown. -/
def Rejects (k : Kernel) (filename : List Byte) (type : Int) (grant : Option Nat)
    (v : Option Int) : Prop :=
  k.findFreeSlot = none ∧ v = some (-1) ∨ k.findFreeSlot ≠ none ∧
    (type = 2 ∧ v = some 0 ∨ type = 3 ∧ v = some 1 ∨ v = none ∧
      ((type = 0 ∨ type = 1) ∧ openType k.host filename type grant = .ok (none, k.host) ∨
        ¬ (0 ≤ type ∧ type ≤ 3)))

theorem Rejects.low {filename : List Byte} {type : Int} {grant : Option Nat} {v : Option Int}
    (rejects : k.Rejects filename type grant v) : v.getD (-1) < 2 := by
  rcases rejects with ⟨_, rfl⟩ | ⟨_, ⟨_, rfl⟩ | ⟨_, rfl⟩ | ⟨rfl, _⟩⟩ <;> decide

/-- `SysOpen` fills a free slot if there is one and the host grants a file; it
changes nothing otherwise. -/
theorem sysOpen_cases {filename : List Byte} {type : Int} {grant : Option Nat} {v : Option Int}
    (run : k.sysOpen filename type grant = .ok (v, k')) :
    (k' = k ∧ k.Rejects filename type grant v) ∨
    ∃ (slot : Nat) (f : OpenFile), v = some (slot : Int) ∧ 2 ≤ slot ∧ f.type = type ∧
      (type = 0 ∨ type = 1) ∧ k.Installed slot f k' ∧
      ∃ host, openType k.host filename type grant = .ok (some f, host) := by
  unfold sysOpen at run
  split at run
  next full =>
    cases run
    exact .inl ⟨rfl, .inl ⟨full, rfl⟩⟩
  next slot found =>
    obtain ⟨low, range, free⟩ := findFreeSlot_some found
    have room : k.findFreeSlot ≠ none := by
      rw [found]
      exact Option.some_ne_none slot
    split at run
    next two =>
      cases run
      exact .inl ⟨rfl, .inr ⟨room, .inl ⟨two, rfl⟩⟩⟩
    next =>
      split at run
      next three =>
        cases run
        exact .inl ⟨rfl, .inr ⟨room, .inr (.inl ⟨three, rfl⟩)⟩⟩
      next =>
        split at run
        next file =>
          obtain ⟨⟨opened, host⟩, call, rest⟩ := Exec.bind_eq_ok.mp run
          rcases openType_cases call with ⟨rfl, rfl⟩ | ⟨f, rfl, new⟩
          · cases rest
            exact .inl ⟨rfl, .inr ⟨room, .inr (.inr ⟨rfl, .inl ⟨file, call⟩⟩)⟩⟩
          · cases rest
            exact .inr ⟨slot, f, rfl, low, new.type, file, new.installed range free, host, call⟩
        next =>
          cases run
          have unknown : ¬ (0 ≤ type ∧ type ≤ 3) := by omega
          exact .inl ⟨rfl, .inr ⟨room, .inr (.inr ⟨rfl, .inr unknown⟩)⟩⟩

theorem sysClose_cases {id v : Int} (run : k.sysClose id = .ok (v, k')) :
    (k' = k ∧ v = -1 ∧ (0 ≤ id ∧ id ≤ 14 → k.openf id.toNat = none)) ∨
    ∃ (slot a : Nat) (f : OpenFile), id = slot ∧ v = 0 ∧ k.Emptied slot a f k' := by
  unfold sysClose at run
  split at run
  next range =>
    obtain ⟨slot, rfl⟩ := Int.eq_ofNat_of_zero_le range.1
    rw [Int.toNat_natCast] at run
    split at run
    next a pointer =>
      obtain ⟨f, there, rest⟩ := Exec.bind_eq_ok.mp run
      obtain ⟨host, closed, rest⟩ := Exec.bind_eq_ok.mp rest
      cases rest
      obtain ⟨_, rfl⟩ := Close_eq_ok.mp closed
      refine .inr ⟨slot, a, f, rfl, rfl, ?_, pointer, object_eq_ok.mp there, rfl, rfl, rfl, rfl, rfl⟩
      unfold MAX_FILE_OPEN
      omega
    next vacant =>
      cases run
      exact .inl ⟨rfl, rfl, fun _ => vacant⟩
  next outside =>
    cases run
    exact .inl ⟨rfl, rfl, fun range => absurd range outside⟩

/-- `delete` never fails: the descriptor of an object in the table is open. -/
theorem sysClose_returns (sound : k.Sound foreign) (id : Int) : ∃ r, k.sysClose id = .ok r := by
  unfold sysClose
  split
  next range =>
    cases pointer : k.openf id.toNat with
    | none => exact ⟨_, rfl⟩
    | some a =>
      have slot : id.toNat < MAX_FILE_OPEN := by
        unfold MAX_FILE_OPEN
        omega
      have live := (sound.objects.marked_iff a).mpr
        ⟨⟨id.toNat, slot⟩, by simp only [pointer, Option.toList_some, List.mem_singleton]⟩
      obtain ⟨f, there⟩ := Option.isSome_iff_exists.mp live
      obtain ⟨d, ready⟩ := sound.ready a f there
      have isOpen : (k.host.fds f.file).isSome = true := by
        rw [ready.isOpen]
        rfl
      have closed := Close_eq_ok.mpr ⟨isOpen, rfl⟩
      simp only [object_eq_ok.mpr there, Exec.ok_bind, closed]
      exact ⟨_, rfl⟩
  next => exact ⟨_, rfl⟩

end Kernel

end NachOS.Stub
