import NachOS.Userprog.OpenTable

/-!
# Sessions: the open-file table in every run

In every run of the system calls the slots hold different objects over different
descriptors, `Open` never replaces an object, `Close` empties exactly one slot, and
no descriptor is lost or closed twice (`openTable_sound`). One lemma says what a call
can do to the table (`trap_effect`); the invariant and the statements about single
calls are read off it.
-/
namespace NachOS.Stub
open NachOS.Lib NachOS.Filesys

/-- What a call can do to the table, with the value that it writes to register 2. -/
inductive Effect (k : Kernel) : FileCall → Option Int → Kernel → Prop
  | quiet {e : FileCall} {v : Option Int} {k' : Kernel} (same : k.Quiet k')
      (opening : ∀ virtAddr type grant, e = .openFile virtAddr type grant →
        ∃ filename, k.memory.user2System virtAddr.toInt MaxFileLength = .ok filename ∧
          k.Rejects filename type.toInt grant v)
      (closing : ∀ id, e = .close id → v = some (-1) ∧
        (0 ≤ id.toInt ∧ id.toInt ≤ 14 → k.openf id.toInt.toNat = none)) : Effect k e v k'
  | opened {virtAddr type : CInt} {grant : Option Nat} {slot : Nat} {f : OpenFile} {k' : Kernel}
      (new : k.Installed slot f k') (low : 2 ≤ slot) (kind : f.type = type.toInt)
      (file : type.toInt = 0 ∨ type.toInt = 1) :
      Effect k (.openFile virtAddr type grant) (some slot) k'
  | closed {id : CInt} {slot a : Nat} {f : OpenFile} {k' : Kernel} (number : id.toInt = slot)
      (gone : k.Emptied slot a f k') : Effect k (.close id) (some 0) k'

namespace Kernel

variable {k k' : Kernel} {foreign : Nat → Bool} {e : FileCall} {v : Option Int}

/-- A call that is neither `Open` nor `Close`. -/
theorem Quiet.effect (same : k.Quiet k')
    (opening : ∀ virtAddr type grant, e ≠ .openFile virtAddr type grant)
    (closing : ∀ id, e ≠ .close id) : Effect k e v k' :=
  .quiet same (fun _ _ _ h => absurd h (opening _ _ _)) fun _ h => absurd h (closing _)

/-- Register 2 does not matter for the table. -/
theorem Sound.withR2 (sound : k.Sound foreign) (r2 : Int) : Kernel.Sound foreign { k with r2 } :=
  ⟨sound.objects, sound.descriptors, sound.ready, sound.fresh⟩

theorem handle_effect (sound : k.Sound foreign) (run : k.handle e = .ok (v, k')) :
    Effect k e v k' := by
  cases e with
  | user memory =>
    cases run
    exact Quiet.effect ⟨rfl, fun _ => rfl, rfl, .refl _⟩ (fun _ _ _ => nofun) fun _ => nofun
  | create virtAddr grant =>
    obtain ⟨filename, _, run⟩ := Exec.bind_eq_ok.mp run
    obtain ⟨⟨res, k₁⟩, call, rest⟩ := Exec.bind_eq_ok.mp run
    cases rest
    exact (sysCreateFile_quiet call).effect (fun _ _ _ => nofun) fun _ => nofun
  | remove virtAddr permitted =>
    obtain ⟨filename, _, run⟩ := Exec.bind_eq_ok.mp run
    cases run
    exact (sysRemove_quiet filename permitted).effect (fun _ _ _ => nofun) fun _ => nofun
  | openFile virtAddr type grant =>
    obtain ⟨filename, name, call⟩ := Exec.bind_eq_ok.mp run
    rcases sysOpen_cases call with ⟨rfl, rejects⟩ | ⟨slot, f, rfl, low, kind, file, new, _⟩
    · refine .quiet (.refl _) ?_ fun _ => nofun
      rintro _ _ _ ⟨⟩
      exact ⟨filename, name, rejects⟩
    · exact .opened new low kind file
  | read virtAddr size id typed =>
    obtain ⟨_, nonneg, run⟩ := Exec.bind_eq_ok.mp run
    obtain ⟨⟨res, k₁⟩, call, rest⟩ := Exec.bind_eq_ok.mp run
    cases rest
    obtain ⟨n, hn⟩ := Int.eq_ofNat_of_zero_le (check_eq_ok.mp nonneg)
    rw [hn] at call
    exact (sysRead_quiet sound call).effect (fun _ _ _ => nofun) fun _ => nofun
  | write virtAddr size id =>
    obtain ⟨_, _, call⟩ := Exec.bind_eq_ok.mp run
    exact (sysWrite_quiet call).effect (fun _ _ _ => nofun) fun _ => nofun
  | seek position id =>
    obtain ⟨⟨res, k₁⟩, call, rest⟩ := Exec.bind_eq_ok.mp run
    cases rest
    exact (sysSeek_quiet call).effect (fun _ _ _ => nofun) fun _ => nofun
  | close id =>
    obtain ⟨⟨res, k₁⟩, call, rest⟩ := Exec.bind_eq_ok.mp run
    cases rest
    rcases sysClose_cases call with ⟨rfl, rfl, vacant⟩ | ⟨slot, a, f, number, rfl, gone⟩
    · refine .quiet (.refl _) (fun _ _ _ => nofun) ?_
      rintro _ ⟨⟩
      exact ⟨rfl, vacant⟩
    · exact .closed number gone

theorem trap_effect (sound : k.Sound foreign) (run : k.trap e = .ok (v, k')) :
    Effect k e v k' := by
  obtain ⟨⟨v₁, k₁⟩, handled, rest⟩ := Exec.bind_eq_ok.mp run
  cases rest
  cases handle_effect (sound.withR2 e.code) handled with
  | quiet same opening closing =>
    refine .quiet ⟨same.openf, same.objects, same.nextObject, same.host⟩ ?_ closing
    rintro virtAddr type grant rfl
    exact opening virtAddr type grant rfl
  | opened new low kind file =>
    exact .opened ⟨new.range, new.free, new.openf, new.objects, new.nextObject, new.unopened,
      new.ready, new.bounds⟩ low kind file
  | closed number gone =>
    exact .closed number ⟨gone.range, gone.pointer, gone.object, gone.openf, gone.objects,
      gone.nextObject, gone.fds, gone.contents⟩

end Kernel

section Boot

variable {k : Kernel} {foreign : Nat → Bool}

/-- The empty table, with the descriptors that are open anyway. -/
theorem Kernel.empty_sound {host : Host} (memory : UserMemory)
    (foreign_iff : ∀ fd, (host.fds fd).isSome = foreign fd) :
    (Kernel.empty host memory).Sound foreign where
  objects := Exact.empty.congr (fun _ => by simp [Kernel.empty]) fun _ => rfl
  descriptors := by
    constructor
    · intro o
      cases o with
      | foreign fd =>
        simp only [Kernel.descriptors]
        split <;> simp
      | object a => exact List.nodup_nil
    · intro o o' fd held held'
      cases o with
      | object a => cases held
      | foreign x =>
        cases o' with
        | object a => cases held'
        | foreign y =>
          simp only [Kernel.descriptors, List.mem_ite_nil_right, List.mem_singleton] at held held'
          rw [← held.2, ← held'.2]
    · intro fd
      change (host.fds fd).isSome = true ↔ _
      rw [foreign_iff]
      constructor
      · intro open_
        exact ⟨.foreign fd, by simp [Kernel.descriptors, open_]⟩
      · rintro ⟨o, held⟩
        cases o with
        | object a => cases held
        | foreign x =>
          simp only [Kernel.descriptors, List.mem_ite_nil_right, List.mem_singleton] at held
          rw [held.2]
          exact held.1
  ready _ _ there := by cases there
  fresh _ _ := rfl

theorem Kernel.installIfAny_sound (slot : Nat) (sound : k.Sound foreign) {name : List Byte}
    {type : Int} {grant : Option Nat} {file : Option OpenFile} {host : Host}
    (run : openType k.host name type grant = .ok (file, host)) (range : slot < MAX_FILE_OPEN)
    (free : k.openf slot = none) :
    ({ k with host }.installIfAny slot file).Sound foreign ∧
      ∀ i ≠ slot, ({ k with host }.installIfAny slot file).openf i = k.openf i := by
  rcases Kernel.openType_cases run with ⟨rfl, rfl⟩ | ⟨f, rfl, opened⟩
  · exact ⟨sound, fun _ _ => rfl⟩
  · exact ⟨(opened.installed range free).sound sound, fun i other => Function.update_of_ne other _ _⟩

/-- The table after the constructor: only the console slots may be filled. -/
theorem Kernel.boot_sound {host : Host} {memory : UserMemory} {grant : Nat → Option Nat}
    (run : Kernel.boot host memory grant = .ok k) :
    k.Sound (fun fd => (host.fds fd).isSome) ∧ ∀ i, 2 ≤ i → k.openf i = none := by
  obtain ⟨host₁, made₁, run⟩ := Exec.bind_eq_ok.mp run
  obtain ⟨host₂, made₂, run⟩ := Exec.bind_eq_ok.mp run
  obtain ⟨⟨input, host₃⟩, opened₁, run⟩ := Exec.bind_eq_ok.mp run
  obtain ⟨⟨output, host₄⟩, opened₂, run⟩ := Exec.bind_eq_ok.mp run
  cases run
  have same : host₂.fds = host.fds :=
    (Kernel.create_fds made₂).1.trans (Kernel.create_fds made₁).1
  have before : ∀ fd, (host₂.fds fd).isSome = (host.fds fd).isSome := fun fd => by rw [same]
  obtain ⟨sound₁, table₁⟩ := Kernel.installIfAny_sound 0 (Kernel.empty_sound memory before)
    opened₁ (by decide) rfl
  obtain ⟨sound₂, table₂⟩ := Kernel.installIfAny_sound 1 sound₁ opened₂ (by decide)
    (table₁ 1 (by decide))
  exact ⟨sound₂, fun i low => (table₂ i (by omega)).trans (table₁ i (by omega))⟩

end Boot

namespace Session

/-- How many of the slots from 2 on are occupied. -/
def occupied (s : Session) : Nat :=
  count fun i : Fin MAX_FILE_OPEN => 2 ≤ (i : Nat) ∧ (s.kernel.openf i).isSome = true

structure Sound (s : Session) : Prop where
  kernel : s.kernel.Sound s.foreign
  balance : s.occupied + s.closes = s.opens

variable {s s' : Session} {e : FileCall}

theorem occupied_congr (same : s'.kernel.openf = s.kernel.openf) : s'.occupied = s.occupied :=
  count_congr fun i => by rw [same]

theorem occupied_opened {k : Kernel} {slot : Nat} {f : OpenFile} (new : s.kernel.Installed slot f k)
    (low : 2 ≤ slot) (after : s'.kernel = k) : s'.occupied = s.occupied + 1 := by
  apply count_gain ⟨slot, new.range⟩
  · simp [new.free]
  · simp [after, new.openf, low]
  · intro j other
    have apart : (j : Nat) ≠ slot := fun same => other (Fin.ext same)
    simp [after, new.openf, Function.update_of_ne apart]

theorem occupied_closed {k : Kernel} {slot a : Nat} {f : OpenFile}
    (gone : s.kernel.Emptied slot a f k) (low : 2 ≤ slot) (after : s'.kernel = k) :
    s.occupied = s'.occupied + 1 := by
  apply count_loss ⟨slot, gone.range⟩
  · simp [gone.pointer, low]
  · simp [after, gone.openf]
  · intro j other
    have apart : (j : Nat) ≠ slot := fun same => other (Fin.ext same)
    simp [after, gone.openf, Function.update_of_ne apart]

/-- The slots of the console are not counted. -/
theorem occupied_console {k : Kernel} {slot a : Nat} {f : OpenFile}
    (gone : s.kernel.Emptied slot a f k) (console : ¬ 2 ≤ slot) (after : s'.kernel = k) :
    s'.occupied = s.occupied := by
  apply count_congr
  intro j
  by_cases same : (j : Nat) = slot
  · simp [same, console]
  · simp [after, gone.openf, Function.update_of_ne same]

theorem next_cases (sound : s.Sound) (step : fileCalls.next e s = some s') :
    ∃ v k, s.kernel.trap e = .ok (v, k) ∧ Effect s.kernel e v k ∧ s' = s.note e v k := by
  simp only [fileCalls] at step
  split at step
  next v k run =>
    cases step
    exact ⟨v, k, run, Kernel.trap_effect sound.kernel run, rfl⟩
  next => cases step

theorem note_kernel (s : Session) (e : FileCall) (v : Option Int) (k : Kernel) :
    (s.note e v k).kernel = k ∧ (s.note e v k).foreign = s.foreign := by
  cases e <;> exact ⟨rfl, rfl⟩

theorem next_sound (sound : s.Sound) (step : fileCalls.next e s = some s') : s'.Sound := by
  obtain ⟨v, k, _, effect, rfl⟩ := next_cases sound step
  obtain ⟨kernel, foreign⟩ := s.note_kernel e v k
  have balance := sound.balance
  cases effect with
  | quiet same opening closing =>
    constructor
    · rw [kernel, foreign]
      exact same.sound sound.kernel
    · rw [occupied_congr (s := s) (by rw [kernel]; exact same.openf)]
      cases e with
      | openFile virtAddr type grant =>
        obtain ⟨_, _, rejects⟩ := opening _ _ _ rfl
        have small := rejects.low
        simp only [note, noteOpen, if_neg (by omega : ¬ 2 ≤ v.getD (-1))]
        exact balance
      | close id =>
        have failed : ¬ (2 ≤ id.toInt ∧ v = some 0) := by
          rw [(closing _ rfl).1]
          exact fun success => nomatch success.2
        simp only [note, noteClose, if_neg failed]
        exact balance
      | _ => exact balance
  | @opened virtAddr type grant slot f k new low kind file =>
    constructor
    · exact new.sound sound.kernel
    · have gained := occupied_opened new low
        (note_kernel s (.openFile virtAddr type grant) (some slot) k).1
      have opens : (s.note (.openFile virtAddr type grant) (some slot) k).opens = s.opens + 1 :=
        if_pos (Int.ofNat_le.mpr low)
      have closes : (s.note (.openFile virtAddr type grant) (some slot) k).closes = s.closes := rfl
      omega
  | @closed id slot a f k number gone =>
    have opens : (s.note (.close id) (some 0) k).opens = s.opens := rfl
    constructor
    · exact gone.sound sound.kernel
    · by_cases low : 2 ≤ slot
      · have lost := occupied_closed gone low (note_kernel s (.close id) (some 0) k).1
        have closes : (s.note (.close id) (some 0) k).closes = s.closes + 1 :=
          if_pos ⟨by omega, rfl⟩
        omega
      · have same := occupied_console gone low (note_kernel s (.close id) (some 0) k).1
        have closes : (s.note (.close id) (some 0) k).closes = s.closes :=
          if_neg fun h => low (by omega)
        omega

theorem init_sound (h : fileCalls.init s) : s.Sound := by
  obtain ⟨host, memory, grant, booted, same⟩ := h
  obtain ⟨sound, empty⟩ := Kernel.boot_sound booted
  have foreign : s.foreign = fun fd => (host.fds fd).isSome := by rw [same]
  have opens : s.opens = 0 := by rw [same]
  have closes : s.closes = 0 := by rw [same]
  refine ⟨foreign ▸ sound, ?_⟩
  have none_occupied : s.occupied = 0 := by
    unfold occupied count
    rw [Finset.card_eq_zero, Finset.filter_eq_empty_iff]
    intro i _ ⟨low, filled⟩
    rw [empty i low] at filled
    cases filled
  omega

theorem reachable_sound (h : fileCalls.Reachable s) : s.Sound :=
  Machine.Reachable.invariant (fun _ => init_sound) (fun _ _ _ sound step => next_sound sound step) h

end Session

/-- The open-file table in one state of a run. -/
structure TableExact (s : Session) : Prop where
  distinct : ∀ i j a b, 2 ≤ i → i < MAX_FILE_OPEN → 2 ≤ j → j < MAX_FILE_OPEN → i ≠ j →
    s.kernel.openf i = some a → s.kernel.openf j = some b → a ≠ b ∧
      ∀ f g, s.kernel.objects a = some f → s.kernel.objects b = some g → f.file ≠ g.file
  live : ∀ i < MAX_FILE_OPEN, ∀ a, s.kernel.openf i = some a →
    ∃ f, s.kernel.objects a = some f ∧ (s.kernel.host.fds f.file).isSome = true
  held : ∀ fd, (s.kernel.host.fds fd).isSome = true ↔ s.foreign fd = true ∨
    ∃ i < MAX_FILE_OPEN, ∃ a f, s.kernel.openf i = some a ∧ s.kernel.objects a = some f ∧ f.file = fd
  balance : s.occupied + s.closes = s.opens

/-- What a call does to the slots. -/
structure TableStep (e : FileCall) (s s' : Session) : Prop where
  opening : ∀ virtAddr type grant, e = .openFile virtAddr type grant →
    ∀ i a, s.kernel.openf i = some a → s'.kernel.openf i = some a
  closing : ∀ id, e = .close id →
    (0 ≤ id.toInt ∧ id.toInt ≤ 14 → s'.kernel.openf id.toInt.toNat = none) ∧
      ∀ j : Nat, (j : Int) ≠ id.toInt → s'.kernel.openf j = s.kernel.openf j
  other : (∀ virtAddr type grant, e ≠ .openFile virtAddr type grant) → (∀ id, e ≠ .close id) →
    s'.kernel.openf = s.kernel.openf

namespace Session

variable {s s' : Session} {e : FileCall}

theorem Sound.tableExact (sound : s.Sound) : TableExact s := by
  have pointers := sound.kernel.objects
  have held := sound.kernel.descriptors
  have live : ∀ i < MAX_FILE_OPEN, ∀ a, s.kernel.openf i = some a →
      ∃ f, s.kernel.objects a = some f ∧ (s.kernel.host.fds f.file).isSome = true := by
    intro i hi a pointer
    have marked := (pointers.marked_iff a).mpr ⟨⟨i, hi⟩, by simp [pointer]⟩
    obtain ⟨f, there⟩ := Option.isSome_iff_exists.mp marked
    obtain ⟨d, ready⟩ := sound.kernel.ready a f there
    exact ⟨f, there, by rw [ready.isOpen]; rfl⟩
  refine ⟨?_, live, ?_, sound.balance⟩
  · intro i j a b _ hi _ hj apart first second
    have other : a ≠ b := by
      rintro rfl
      have same := pointers.disjoint ⟨i, hi⟩ ⟨j, hj⟩ a (by simp [first]) (by simp [second])
      exact apart (congrArg Fin.val same)
    refine ⟨other, fun f g there there' same => other ?_⟩
    have owner := held.disjoint (.object a) (.object b) f.file
      (by simp [Kernel.descriptors, there]) (by simp [Kernel.descriptors, there', same])
    injection owner
  · intro fd
    rw [held.marked_iff]
    constructor
    · rintro ⟨o, member⟩
      cases o with
      | foreign x =>
        simp only [Kernel.descriptors, List.mem_ite_nil_right, List.mem_singleton] at member
        exact .inl (member.2 ▸ member.1)
      | object a =>
        simp only [Kernel.descriptors, Option.mem_toList, Option.map_eq_some_iff] at member
        obtain ⟨f, there, same⟩ := member
        obtain ⟨i, pointer⟩ := (pointers.marked_iff a).mp (by rw [there]; rfl)
        exact .inr ⟨i, i.isLt, a, f, by simpa using pointer, there, same⟩
    · rintro (foreign | ⟨i, hi, a, f, pointer, there, same⟩)
      · exact ⟨.foreign fd, by simp [Kernel.descriptors, foreign]⟩
      · exact ⟨.object a, by simp [Kernel.descriptors, there, same]⟩

theorem next_tableStep (sound : s.Sound) (step : fileCalls.next e s = some s') :
    TableStep e s s' := by
  obtain ⟨v, k, _, effect, rfl⟩ := next_cases sound step
  have kernel := (s.note_kernel e v k).1
  cases effect with
  | quiet same opening closing =>
    constructor
    · intro _ _ _ _ i a filled
      rw [kernel, same.openf]
      exact filled
    · intro id called
      rw [kernel, same.openf]
      exact ⟨(closing id called).2, fun _ _ => rfl⟩
    · intro _ _
      rw [kernel, same.openf]
  | @opened virtAddr type grant slot f k new low kind file =>
    constructor
    · intro _ _ _ _ i a filled
      have apart : i ≠ slot := by
        rintro rfl
        rw [new.free] at filled
        cases filled
      rw [kernel, new.openf, Function.update_of_ne apart]
      exact filled
    · intro id called
      cases called
    · intro opening
      exact absurd rfl (opening _ _ _)
  | @closed id slot a f k number gone =>
    constructor
    · intro _ _ _ called
      cases called
    · intro id' called
      cases called
      rw [kernel, gone.openf, number, Int.toNat_natCast]
      refine ⟨fun _ => Function.update_self _ _ _, fun j other => ?_⟩
      exact Function.update_of_ne (fun same => other (congrArg Nat.cast same)) _ _
    · intro _ closing
      exact absurd rfl (closing _)

end Session

/-- The open-file table in every run of the file system calls. -/
theorem openTable_sound {s : Session} (reachable : fileCalls.Reachable s) :
    TableExact s ∧ (∀ e s', fileCalls.next e s = some s' → TableStep e s s') ∧
      ∀ id, ∃ r, s.kernel.trap (.close id) = .ok r := by
  have sound := Session.reachable_sound reachable
  refine ⟨sound.tableExact, fun e s' step => Session.next_tableStep sound step, fun id => ?_⟩
  obtain ⟨⟨res, k⟩, run⟩ := Kernel.sysClose_returns (sound.kernel.withR2 10) id.toInt
  refine ⟨(some res, { k with r2 := res }), ?_⟩
  have handled : Kernel.handle { s.kernel with r2 := 10 } (.close id) = .ok (some res, k) := by
    simp only [Kernel.handle, run, Exec.ok_bind]
  unfold Kernel.trap
  rw [show (FileCall.close id).code = 10 from rfl, handled]
  rfl

/-- A host without files. -/
def bareHost : Host where
  names := fun _ => none
  contents := fun _ => []
  fds := fun _ => none
  nextInode := 0

/-- The name of a file that the constructor makes, at address 0. -/
def nameInMemory : UserMemory where
  byte := fun addr => bufferOf (Kernel.nameOf ['s', 't', 'd', 'i', 'n']) addr.toNat
  readable := fun _ => true
  writable := fun _ => true

/-- The state after some calls on that host. -/
def sampleRun (es : List FileCall) : Option Session :=
  match Kernel.boot bareHost nameInMemory fun i => some (i + 3) with
  | .ok k => fileCalls.run es ⟨k, fun fd => (bareHost.fds fd).isSome, 0, 0, []⟩
  | .error _ => none

theorem sampleRun_cases {es : List FileCall} {s : Session} (run : sampleRun es = some s) :
    ∃ s₀, fileCalls.init s₀ ∧ s₀.opens = 0 ∧ fileCalls.run es s₀ = some s := by
  unfold sampleRun at run
  split at run
  next k booted => exact ⟨_, ⟨bareHost, nameInMemory, _, booted, rfl⟩, rfl, run⟩
  next => cases run

/-- The file is opened twice, and the first of the two objects is closed. -/
theorem openTable_sound_two : ∃ s, fileCalls.Reachable s ∧ s.opens = 2 ∧ s.closes = 1 ∧
    TableExact s ∧ s.occupied = 1 := by
  have run : (sampleRun [.openFile 0 0 (some 7), .openFile 0 1 (some 8), .close 2]).map
      (fun s => (s.opens, s.closes)) = some (2, 1) := by decide +kernel
  obtain ⟨s, reached, observed⟩ := Option.map_eq_some_iff.mp run
  obtain ⟨s₀, start, _, rest⟩ := sampleRun_cases reached
  have reachable : fileCalls.Reachable s := (Machine.Reachable.init start).run _ rest
  have exact_ := (openTable_sound reachable).1
  injection observed with opens closes
  refine ⟨s, reachable, opens, closes, exact_, ?_⟩
  have := exact_.balance
  omega

end NachOS.Stub
