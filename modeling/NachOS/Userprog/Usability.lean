import NachOS.Userprog.Sessions

/-!
# Ids that can be used

`Open`, `Read` and `Write` test ids and types each in their own way. An id that
`Open` returned, and that was not closed since, is accepted by `Read` and `Write` as
its type says, in the runs in which every `Open` of a file is granted and none is for
the console (`granted_usable`). Otherwise the program holds an id that the other calls
reject: 0 or 1 for the console types, which `Read` and `Write` take to be outside of
the table, or 6, the number of the call itself, which is left in register 2 when the
host refuses the file.
-/
namespace NachOS.Stub
open NachOS.Lib NachOS.Filesys

/-- The id leads through the table to a file that allows what the type asks for. -/
def Kernel.Serves (k : Kernel) (id type : Int) : Prop :=
  (type = 0 ∨ type = 1) ∧ ∃ (slot a : Nat) (f : OpenFile), id = slot ∧ 2 ≤ slot ∧
    slot < MAX_FILE_OPEN ∧ k.openf slot = some a ∧ k.objects a = some f ∧
    (f.type = 0 ∨ f.type = type)

/-- The kernel can allocate a buffer for the bytes, and the file does not outgrow what
the host can store. -/
def Kernel.Room (k : Kernel) (id size : Int) : Prop :=
  size < OFF_MAX ∧ ∀ (slot a : Nat) (f : OpenFile) (d : Descriptor), id = slot →
    k.openf slot = some a → k.objects a = some f → k.host.fds f.file = some d →
    d.offset + size ≤ OFF_MAX

/-- `Read` and `Write` accept the id, as far as the type allows, for every buffer of
positive size that is mapped. -/
structure Usable (k : Kernel) (id : CInt) (type : Int) : Prop where
  read : type = 0 ∨ type = 1 ∨ type = 2 → ∀ (virtAddr size : CInt) (typed : List Byte),
    0 < size.toInt →
    (∀ j : Nat, (j : Int) < size.toInt → k.memory.writable (virtAddr.toInt + j) = true) →
    ∃ v k', k.trap (.read virtAddr size id typed) = .ok (v, k') ∧ k'.r2 ≠ -1
  write : type = 0 ∨ type = 3 → ∀ virtAddr size : CInt, 0 < size.toInt →
    (∀ j : Nat, (j : Int) < size.toInt → k.memory.readable (virtAddr.toInt + j) = true) →
    (∀ v k', k.trap (.write virtAddr size id) = .ok (v, k') → k'.r2 ≠ -1) ∧
      (k.Room id.toInt size.toInt → ∃ r, k.trap (.write virtAddr size id) = .ok r)

/-- An `Open` that returns no id, or an id that leads to a file: the table is full,
the type is unknown, or the host grants the file (or slot 6, whose number stays in
register 2 if it does not, holds a file that will do). -/
def FileCall.Served (e : FileCall) (k : Kernel) : Prop :=
  match e with
  | .openFile virtAddr type grant => k.findFreeSlot = none ∨ ¬ (0 ≤ type.toInt ∧ type.toInt ≤ 3) ∨
    (type.toInt = 0 ∨ type.toInt = 1) ∧ (k.Serves 6 type.toInt ∨ ∃ filename f host,
      k.memory.user2System virtAddr.toInt MaxFileLength = .ok filename ∧
      openType k.host filename type.toInt grant = .ok (some f, host))
  | _ => True

namespace Kernel

variable {k k' : Kernel} {foreign : Nat → Bool} {id type : Int}

theorem Serves.quiet (serves : k.Serves id type) (same : k.Quiet k') : k'.Serves id type := by
  obtain ⟨file, slot, a, f, number, low, range, pointer, there, kind⟩ := serves
  have object := same.objects a
  rw [there, Option.map_some, Option.map_eq_some_iff] at object
  obtain ⟨f', there', start⟩ := object
  refine ⟨file, slot, a, f', number, low, range, ?_, there', ?_⟩
  · rw [same.openf]
    exact pointer
  · rw [(OpenFile.of_atStart start).2]
    exact kind

theorem Serves.installed (serves : k.Serves id type) (sound : k.Sound foreign) {slot : Nat}
    {f : OpenFile} (new : k.Installed slot f k') : k'.Serves id type := by
  obtain ⟨file, slot', a, g, number, low, range, pointer, there, kind⟩ := serves
  have apart : slot' ≠ slot := by
    rintro rfl
    rw [new.free] at pointer
    cases pointer
  have other : a ≠ k.nextObject := by
    rintro rfl
    rw [sound.fresh _ le_rfl] at there
    cases there
  refine ⟨file, slot', a, g, number, low, range, ?_, ?_, kind⟩
  · rw [new.openf, Function.update_of_ne apart]
    exact pointer
  · rw [new.objects, Function.update_of_ne other]
    exact there

/-- The id of the new object. -/
theorem Installed.serves {slot : Nat} {f : OpenFile} (new : k.Installed slot f k') (low : 2 ≤ slot)
    (kind : f.type = type) (file : type = 0 ∨ type = 1) : k'.Serves slot type := by
  refine ⟨file, slot, k.nextObject, f, rfl, low, new.range, ?_, ?_, .inr kind⟩
  · rw [new.openf, Function.update_self]
  · rw [new.objects, Function.update_self]

theorem Serves.emptied (serves : k.Serves id type) (sound : k.Sound foreign) {slot a : Nat}
    {f : OpenFile} (gone : k.Emptied slot a f k') (apart : id ≠ slot) : k'.Serves id type := by
  obtain ⟨file, slot', b, g, number, low, range, pointer, there, kind⟩ := serves
  have slots : slot' ≠ slot := fun same => apart (number.trans (congrArg Nat.cast same))
  have other : b ≠ a := by
    rintro rfl
    have same := sound.objects.disjoint ⟨slot', range⟩ ⟨slot, gone.range⟩ b
      (by simp [pointer]) (by simp [gone.pointer])
    exact slots (congrArg Fin.val same)
  refine ⟨file, slot', b, g, number, low, range, ?_, ?_, kind⟩
  · rw [gone.openf, Function.update_of_ne slots]
    exact pointer
  · rw [gone.objects, Function.update_of_ne other]
    exact there

/-- The slot test that all calls make first. -/
theorem slot_of {slot : Nat} (range : slot < MAX_FILE_OPEN) :
    k.slot slot = .ok (k.openf slot) := by
  have inside : (0 : Int) ≤ slot ∧ (slot : Int) < MAX_FILE_OPEN := by omega
  simp only [Kernel.slot, check_true inside, Exec.ok_bind, Int.toNat_natCast]

theorem sysRead_serves (sound : k.Sound foreign) (serves : k.Serves id type) {virtAddr : Int}
    {n : Nat} (typed : List Byte)
    (mapped : ∀ j < n, k.memory.writable (virtAddr + j) = true) :
    ∃ v k', k.sysRead virtAddr n id typed = .ok (v, k') ∧ v ≠ -1 := by
  obtain ⟨file, slot, a, f, rfl, low, range, pointer, there, kind⟩ := serves
  obtain ⟨d, ready⟩ := sound.ready a f there
  have accepted : ¬ ((slot : Int) < 2 ∨ (slot : Int) > MAX_FILE_OPEN) := by omega
  have run := readObject_file (n := n) virtAddr typed there ready (by omega)
  have size : (k.host.available d n).length ≤ n := by
    unfold Host.available
    rw [List.length_take]
    exact Nat.min_le_left _ _
  unfold sysRead
  rw [if_neg accepted, slot_of range, Exec.ok_bind, pointer]
  simp only [run]
  generalize k.host.available d n = data at size
  split
  next =>
    have inside : ∀ j < 0 + data.length, k.memory.writable (virtAddr + j) = true :=
      fun j hj => mapped j (by omega)
    obtain ⟨memory, copied⟩ := UserMemory.copyOut_mapped (bufferOf data) 0 data.length inside
    have copied : k.memory.system2User virtAddr data.length (bufferOf data) = .ok memory := copied
    rw [copied, Exec.ok_bind]
    exact ⟨_, _, rfl, by omega⟩
  next => exact ⟨_, _, rfl, by decide⟩

/-- `User2System` on a mapped buffer aborts only if the kernel buffer cannot be
allocated. -/
theorem user2System_mapped {virtAddr : Int} {n : Nat}
    (mapped : ∀ j < n, k.memory.readable (virtAddr + j) = true) :
    (∃ text, k.memory.user2System virtAddr n = .ok text) ∨
      ((OFF_MAX : Int) ≤ n ∧ k.memory.user2System virtAddr n = .error .badAlloc) := by
  obtain ⟨text, copied⟩ := UserMemory.copyIn_mapped virtAddr mapped
  have top : (OFF_MAX : Int) = 2147483647 := rfl
  unfold UserMemory.user2System
  rw [Int.toNat_natCast]
  by_cases fits : 0 ≤ int32 ((n : Int) + 1)
  · left
    exact ⟨text, by rw [check_true fits, Exec.ok_bind, copied]⟩
  · right
    refine ⟨?_, by rw [check, if_neg fits]; rfl⟩
    by_contra small
    exact fits (by rw [int32_of_range (by omega) (by omega)]; omega)

/-- `SysWrite` on a file that serves writes all bytes, or aborts for want of room. -/
theorem sysWrite_serves (sound : k.Sound foreign) (serves : k.Serves id 0) {virtAddr : Int}
    {n : Nat} (positive : 0 < n) (mapped : ∀ j < n, k.memory.readable (virtAddr + j) = true) :
    (∃ k', k.sysWrite virtAddr n id = .ok (some (n : Int), k')) ∨
      (¬ k.Room id n ∧ ∃ fault, k.sysWrite virtAddr n id = .error fault) := by
  obtain ⟨_, slot, a, f, rfl, low, range, pointer, there, kind⟩ := serves
  obtain ⟨d, ready⟩ := sound.ready a f there
  have accepted : ¬ ((slot : Int) < 2 ∨ (slot : Int) > MAX_FILE_OPEN - 1) := by omega
  have readWrite : f.type = 0 := kind.elim id id
  unfold sysWrite
  rw [if_neg accepted, slot_of range, Exec.ok_bind, pointer]
  rcases user2System_mapped mapped with ⟨text, buffer⟩ | ⟨large, refused⟩
  · rcases writeObject_file there ready readWrite buffer with ⟨_, run⟩ | ⟨full, aborts⟩
    · rw [if_pos positive] at run
      exact .inl ⟨_, run⟩
    · refine .inr ⟨fun room => ?_, _, aborts⟩
      have := room.2 slot a f d rfl pointer there ready.isOpen
      omega
  · refine .inr ⟨fun room => absurd room.1 (not_lt.mpr large), .badAlloc, ?_⟩
    have readOnly : ¬ (f.type = 1 ∨ f.type = 2) := by omega
    change k.writeObject a virtAddr n = .error .badAlloc
    unfold writeObject
    rw [object_eq_ok.mpr there, Exec.ok_bind, if_neg readOnly]
    simp only [OpenFile.getCurrentPos, refused]
    rfl

theorem trap_read {virtAddr size id : CInt} (typed : List Byte) (nonneg : 0 ≤ size.toInt) :
    k.trap (.read virtAddr size id typed) =
      Kernel.sysRead { k with r2 := 7 } virtAddr.toInt size.toInt id.toInt typed >>=
        fun (res, k') => .ok (some res, { k' with r2 := res }) := by
  simp only [trap, FileCall.code, handle, check_true nonneg, Exec.ok_bind]
  cases Kernel.sysRead { k with r2 := 7 } virtAddr.toInt size.toInt id.toInt typed <;> rfl

theorem trap_write {virtAddr size id : CInt} (nonneg : 0 ≤ size.toInt) :
    k.trap (.write virtAddr size id) =
      Kernel.sysWrite { k with r2 := 8 } virtAddr.toInt size.toInt id.toInt >>=
        fun (written, k') => .ok (written, { k' with r2 := written.getD k'.r2 }) := by
  simp only [trap, FileCall.code, handle, check_true nonneg, Exec.ok_bind]

/-- An id that leads to a file can be used. -/
theorem Serves.usable {id : CInt} (serves : k.Serves id.toInt type) (sound : k.Sound foreign) :
    Usable k id type := by
  constructor
  · intro _ virtAddr size typed positive mapped
    obtain ⟨n, hn⟩ := Int.eq_ofNat_of_zero_le positive.le
    have served : Kernel.Serves { k with r2 := 7 } id.toInt type := serves
    obtain ⟨v, k', run, success⟩ := sysRead_serves (n := n) (sound.withR2 7) served typed
      fun j hj => mapped j (by omega)
    refine ⟨some v, { k' with r2 := v }, ?_, success⟩
    rw [trap_read typed positive.le, hn, run]
    rfl
  · intro writes virtAddr size positive mapped
    obtain ⟨n, hn⟩ := Int.eq_ofNat_of_zero_le positive.le
    obtain rfl : type = 0 := by
      have := serves.1
      omega
    have served : Kernel.Serves { k with r2 := 8 } id.toInt 0 := serves
    rw [trap_write positive.le, hn]
    rcases sysWrite_serves (n := n) (sound.withR2 8) served (by omega)
      fun j hj => mapped j (by omega) with ⟨k₁, run⟩ | ⟨full, fault, aborts⟩
    · rw [run]
      refine ⟨?_, fun _ => ⟨_, rfl⟩⟩
      rintro v k' ⟨⟩
      change (n : Int) ≠ -1
      omega
    · rw [aborts]
      exact ⟨fun v k' => nofun, fun room => absurd room full⟩

/-- `Open` leaves its own number in register 2 if it writes nothing to it. -/
theorem trap_openFile_r2 {virtAddr type : CInt} {grant : Option Nat} {v : Option Int}
    (run : k.trap (.openFile virtAddr type grant) = .ok (v, k')) : k'.r2 = v.getD 6 := by
  obtain ⟨⟨v₁, k₁⟩, handled, rest⟩ := Exec.bind_eq_ok.mp run
  cases rest
  obtain ⟨filename, _, call⟩ := Exec.bind_eq_ok.mp handled
  rcases sysOpen_cases call with ⟨rfl, _⟩ | ⟨slot, f, rfl, _⟩
  · rfl
  · rfl

end Kernel

namespace Session

variable {s s' : Session} {e : FileCall}

/-- Every id that `Open` returned for a known type leads to a file. -/
structure Honest (s : Session) : Prop where
  sound : s.Sound
  serves : ∀ id type, (id, type) ∈ s.granted → 0 ≤ type ∧ type ≤ 3 → s.kernel.Serves id type

/-- An `Open` that fills no slot returns -1, or an id that leads to a file. -/
theorem rejects_serves {k : Kernel} {filename : List Byte} {virtAddr type : CInt}
    {grant : Option Nat} {v : Option Int}
    (name : k.memory.user2System virtAddr.toInt MaxFileLength = .ok filename)
    (rejects : k.Rejects filename type.toInt grant v)
    (served : (FileCall.openFile virtAddr type grant).Served k) :
    v = some (-1) ∨ ¬ (0 ≤ type.toInt ∧ type.toInt ≤ 3) ∨ v = none ∧ k.Serves 6 type.toInt := by
  rcases rejects with ⟨_, minusOne⟩ | ⟨room, rest⟩
  · exact .inl minusOne
  · rcases served with full | unknown | ⟨file, granted⟩
    · exact absurd full room
    · exact .inr (.inl unknown)
    · rcases rest with ⟨two, _⟩ | ⟨three, _⟩ | ⟨unwritten, ⟨_, refused⟩ | unknown⟩
      · omega
      · omega
      · rcases granted with serves | ⟨filename', f, host, name', success⟩
        · exact .inr (.inr ⟨unwritten, serves⟩)
        · rw [name] at name'
          cases name'
          rw [refused] at success
          cases success
      · exact .inr (.inl unknown)

theorem mem_noteOpen {k : Kernel} {v : Option Int} {id type type' : Int}
    (member : (id, type') ∈ (s.noteOpen type v k).granted) :
    (id = k.r2 ∧ 0 ≤ k.r2 ∧ type' = type) ∨ (id, type') ∈ s.granted := by
  change _ ∈ if 0 ≤ k.r2 then (k.r2, type) :: s.granted else s.granted at member
  split at member
  next nonneg =>
    rcases List.mem_cons.mp member with new | before
    · cases new
      exact .inl ⟨rfl, nonneg, rfl⟩
    · exact .inr before
  next => exact .inr member

/-- An `Open` that fills a slot is served. -/
theorem served_of_opens {virtAddr type : CInt} {grant : Option Nat}
    (step : fileCalls.next (.openFile virtAddr type grant) s = some s')
    (more : s.opens < s'.opens) : (FileCall.openFile virtAddr type grant).Served s.kernel := by
  simp only [fileCalls] at step
  split at step
  next v k run =>
    cases step
    have high : 2 ≤ v.getD (-1) := by
      by_contra small
      have same : (s.noteOpen type.toInt v k).opens = s.opens := if_neg small
      exact absurd more (same ▸ lt_irrefl _)
    obtain ⟨⟨v₁, k₁⟩, handled, rest⟩ := Exec.bind_eq_ok.mp run
    cases rest
    obtain ⟨filename, name, call⟩ := Exec.bind_eq_ok.mp handled
    rcases Kernel.sysOpen_cases call with ⟨_, rejects⟩ | ⟨slot, f, _, _, _, file, _, host, success⟩
    · exact absurd high (not_le.mpr rejects.low)
    · exact .inr (.inr ⟨file, .inr ⟨filename, f, host, name, success⟩⟩)
  next => cases step

theorem init_honest (h : fileCalls.init s) : s.Honest := by
  refine ⟨init_sound h, ?_⟩
  obtain ⟨host, memory, grant, _, same⟩ := h
  intro id type member
  rw [same] at member
  cases member

theorem next_honest (honest : s.Honest) (served : e.Served s.kernel)
    (step : fileCalls.next e s = some s') : s'.Honest := by
  refine ⟨next_sound honest.sound step, ?_⟩
  have kernel := honest.sound.kernel
  obtain ⟨v, k, run, effect, rfl⟩ := next_cases honest.sound step
  cases effect with
  | quiet same opening closing =>
    have kept : ∀ id type, (id, type) ∈ s.granted → 0 ≤ type ∧ type ≤ 3 → k.Serves id type :=
      fun id type member known => (honest.serves id type member known).quiet same
    cases e with
    | openFile virtAddr type grant =>
      obtain ⟨filename, name, rejects⟩ := opening _ _ _ rfl
      have r2 := Kernel.trap_openFile_r2 run
      intro id type' member known
      rcases mem_noteOpen member with ⟨rfl, nonneg, rfl⟩ | before
      · rcases rejects_serves name rejects served with rfl | unknown | ⟨rfl, serves⟩
        · rw [r2] at nonneg
          exact absurd nonneg (by decide)
        · exact absurd known unknown
        · rw [r2]
          exact serves.quiet same
      · exact kept id type' before known
    | close id =>
      have failed : ¬ v = some 0 := by
        rw [(closing _ rfl).1]
        decide
      simp only [note, noteClose, if_neg failed]
      exact kept
    | _ => exact kept
  | @opened virtAddr type grant slot f k new low kind file =>
    have r2 := Kernel.trap_openFile_r2 run
    intro id type' member known
    rcases mem_noteOpen member with ⟨rfl, _, rfl⟩ | before
    · rw [r2]
      exact new.serves low kind file
    · exact (honest.serves id type' before known).installed kernel new
  | @closed id slot a f k number gone =>
    intro id' type member known
    have member : (id', type) ∈ s.granted.filter (·.1 ≠ id.toInt) := member
    obtain ⟨before, other⟩ := List.mem_filter.mp member
    refine (honest.serves id' type before known).emptied kernel gone ?_
    rw [← number]
    exact of_decide_eq_true other

end Session

/-- An id that `Open` returned, in a run in which every `Open` is served. -/
theorem granted_usable {s : Session}
    (reachable : fileCalls.ReachableUnder (fun e s => e.Served s.kernel) s) {id : CInt} {type : Int}
    (granted : (id.toInt, type) ∈ s.granted) : Usable s.kernel id type := by
  have honest : s.Honest := by
    apply reachable.invariant
    · exact fun s => Session.init_honest
    · exact fun e s s' honest served step => Session.next_honest honest served step
  by_cases known : 0 ≤ type ∧ type ≤ 3
  · exact (honest.serves _ _ granted known).usable honest.sound.kernel
  · exact ⟨fun reads => absurd reads (by omega), fun writes => absurd writes (by omega)⟩

/-- A file that exists is opened for reading and writing. -/
theorem granted_usable_file : ∃ s, fileCalls.ReachableUnder (fun e s => e.Served s.kernel) s ∧
    s.granted = [(2, 0)] ∧ Usable s.kernel 2 0 := by
  have run : (sampleRun [.openFile 0 0 (some 7)]).map (fun s => (s.opens, s.granted)) =
      some (1, [(2, 0)]) := by decide +kernel
  obtain ⟨s, reached, observed⟩ := Option.map_eq_some_iff.mp run
  obtain ⟨s₀, start, none_open, rest⟩ := sampleRun_cases reached
  obtain ⟨s₁, step, last⟩ := Option.bind_eq_some_iff.mp rest
  cases last
  injection observed with opens granted
  have served := Session.served_of_opens step (by omega)
  have reachable : fileCalls.ReachableUnder (fun e s => e.Served s.kernel) s :=
    .step (.init start) served step
  refine ⟨s, reachable, granted, granted_usable reachable ?_⟩
  rw [granted]
  exact List.mem_singleton.mpr rfl

/-- `Open` for the console returns 0, and `Read` rejects 0. -/
theorem granted_not_usable : ¬ ∀ s, fileCalls.Reachable s → ∀ (id : CInt) (type : Int),
    (id.toInt, type) ∈ s.granted → Usable s.kernel id type := by
  intro usable
  have run : (sampleRun [.openFile 0 2 none]).map (fun s => (s.granted, s.kernel.memory.writable 0,
      (s.kernel.trap (.read 0 1 0 [])).toOption.map fun r => r.2.r2)) =
      some ([(0, 2)], true, some (-1)) := by decide +kernel
  obtain ⟨s, reached, observed⟩ := Option.map_eq_some_iff.mp run
  obtain ⟨s₀, start, _, rest⟩ := sampleRun_cases reached
  have reachable : fileCalls.Reachable s := (Machine.Reachable.init start).run _ rest
  injection observed with granted observed
  injection observed with writable result
  have console := usable s reachable 0 2 (by rw [granted]; exact List.mem_singleton.mpr rfl)
  obtain ⟨v, k, read, success⟩ := console.read (by decide) 0 1 [] (by decide) fun j hj => by
    obtain rfl : j = 0 := by
      change (j : Int) < 1 at hj
      omega
    exact writable
  rw [read] at result
  exact success (Option.some.inj result)

end NachOS.Stub
