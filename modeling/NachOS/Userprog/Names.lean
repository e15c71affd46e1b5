import NachOS.Userprog.Usability

/-!
# The results of Create, Open and Remove (userprog/exception.cc:228-263, 329-338)

The three calls that take a name copy it from user memory, each with its own limit,
and hand it to the file system. `Create` and `Open` see at most `MaxFileLength` bytes
of it and `Remove` one more, so a longer name is created under one name and removed
under another (`sameName_iff`). `Create` reports a failure only for the empty name;
every other one ends in the assertion of `OpenForWrite` (`create_reports_iff`). `Open`
reports a full table, and stays silent if the host or the type is at fault, so that
register 2 still holds the number of the call (`open_outcome_iff`).
-/
namespace NachOS.Stub
open NachOS.Lib NachOS.Filesys

namespace UserMemory

variable {m : UserMemory} {virtAddr : Int} {n : Nat} {text name : List Byte}

/-- The `n` bytes from an address on. -/
def bytesAt (m : UserMemory) (virtAddr : Int) : Nat → List Byte
  | 0 => []
  | n + 1 => m.byte virtAddr :: m.bytesAt (virtAddr + 1) n

/-- The string at an address, cut off after `limit` bytes. -/
def stringAt (m : UserMemory) (virtAddr : Int) (limit : Nat) : List Byte :=
  (m.bytesAt virtAddr limit).takeWhile fun b => b ≠ 0

/-- The name and its NUL are in memory that can be read. -/
def Stores (m : UserMemory) : Int → List Byte → Prop
  | virtAddr, [] => m.readable virtAddr = true ∧ m.byte virtAddr = 0
  | virtAddr, b :: rest => m.readable virtAddr = true ∧ m.byte virtAddr = b ∧ b ≠ 0 ∧
    m.Stores (virtAddr + 1) rest

def decidableStores (m : UserMemory) : (virtAddr : Int) → (name : List Byte) →
    Decidable (m.Stores virtAddr name)
  | virtAddr, [] => inferInstanceAs (Decidable (m.readable virtAddr = true ∧ m.byte virtAddr = 0))
  | virtAddr, b :: rest =>
    have : Decidable (m.Stores (virtAddr + 1) rest) := m.decidableStores (virtAddr + 1) rest
    inferInstanceAs (Decidable (m.readable virtAddr = true ∧ m.byte virtAddr = b ∧ b ≠ 0 ∧
      m.Stores (virtAddr + 1) rest))

instance (m : UserMemory) (virtAddr : Int) (name : List Byte) :
    Decidable (m.Stores virtAddr name) :=
  m.decidableStores virtAddr name

theorem copyIn_stringAt (copied : m.copyIn virtAddr n = .ok text) :
    text = m.stringAt virtAddr n := by
  induction n generalizing virtAddr text with
  | zero =>
    cases copied
    rfl
  | succ n ih =>
    obtain ⟨oneChar, fetched, rest⟩ := Exec.bind_eq_ok.mp copied
    obtain ⟨_, _, value⟩ := Exec.bind_eq_ok.mp fetched
    cases value
    unfold stringAt bytesAt
    split at rest
    next zero =>
      cases rest
      rw [List.takeWhile_cons_of_neg (by simpa using zero)]
    next other =>
      obtain ⟨tail, copied', rest⟩ := Exec.bind_eq_ok.mp rest
      cases rest
      rw [List.takeWhile_cons_of_pos (by simpa using other), ih copied']
      rfl

/-- `User2System` returns the string, whatever lies behind it. -/
theorem user2System_stringAt {limit : Int} (copied : m.user2System virtAddr limit = .ok text) :
    text = m.stringAt virtAddr limit.toNat := by
  obtain ⟨_, _, copied⟩ := Exec.bind_eq_ok.mp copied
  exact copyIn_stringAt copied

theorem copyIn_stores (stores : m.Stores virtAddr name) (n : Nat) :
    m.copyIn virtAddr n = .ok (name.take n) := by
  induction n generalizing virtAddr name with
  | zero => rfl
  | succ n ih =>
    cases name with
    | nil =>
      obtain ⟨readable, zero⟩ := stores
      simp only [copyIn, readMem, check_true readable, Exec.ok_bind, zero, if_true, List.take_nil]
    | cons b rest =>
      obtain ⟨readable, byte, other, stores⟩ := stores
      simp only [copyIn, readMem, check_true readable, Exec.ok_bind, byte, if_neg other, ih stores,
        List.take_succ_cons]

/-- A stored name arrives up to the limit. -/
theorem user2System_stores (stores : m.Stores virtAddr name) {limit : Nat}
    (small : limit < OFF_MAX) : m.user2System virtAddr limit = .ok (name.take limit) := by
  have top : (OFF_MAX : Int) = 2147483647 := rfl
  have fits : 0 ≤ int32 ((limit : Int) + 1) := by
    rw [int32_of_range (by omega) (by omega)]
    omega
  simp only [user2System, check_true fits, Exec.ok_bind, Int.toNat_natCast, copyIn_stores stores]

end UserMemory

namespace Kernel

/-- The name that the handler of `Create` passes to the file system. -/
def createName (k : Kernel) (virtAddr : CInt) : Exec (List Byte) :=
  k.memory.user2System virtAddr.toInt MaxFileLength

def openName (k : Kernel) (virtAddr : CInt) : Exec (List Byte) :=
  k.memory.user2System virtAddr.toInt MaxFileLength

def removeName (k : Kernel) (virtAddr : CInt) : Exec (List Byte) :=
  k.memory.user2System virtAddr.toInt (MaxFileLength + 1)

variable {k k' : Kernel} {virtAddr : CInt} {name : List Byte} {grant : Option Nat}

theorem handle_create (k : Kernel) (virtAddr : CInt) (grant : Option Nat) :
    k.handle (.create virtAddr grant) = (do
      let filename ← k.createName virtAddr
      let (res, k) ← k.sysCreateFile filename grant
      .ok (some res, k)) := rfl

theorem handle_open (k : Kernel) (virtAddr type : CInt) (grant : Option Nat) :
    k.handle (.openFile virtAddr type grant) = (do
      let filename ← k.openName virtAddr
      k.sysOpen filename type.toInt grant) := rfl

theorem handle_remove (k : Kernel) (virtAddr : CInt) (permitted : Bool) :
    k.handle (.remove virtAddr permitted) = (do
      let filename ← k.removeName virtAddr
      let (res, k) := k.sysRemove filename permitted
      .ok (some res, k)) := rfl

theorem createName_stores (stores : k.memory.Stores virtAddr.toInt name) :
    k.createName virtAddr = .ok (name.take 32) :=
  UserMemory.user2System_stores stores (by decide)

theorem removeName_stores (stores : k.memory.Stores virtAddr.toInt name) :
    k.removeName virtAddr = .ok (name.take 33) :=
  UserMemory.user2System_stores stores (by decide)

/-- The host gives a descriptor for the file: it never does for the empty name. -/
def CouldOpen (h : Host) (name : List Byte) (grant : Option Nat) : Prop :=
  name ≠ [] ∧ ∃ fd, grant = some fd ∧ h.fds fd = none

/-- `FileSystem::Create` on a file that the host opens: the name is in use then, and no
descriptor stays behind. -/
theorem create_couldOpen {h : Host} (could : CouldOpen h name grant) :
    ∃ h', create h name grant = .ok h' ∧ (h'.names name).isSome = true := by
  obtain ⟨_, fd, rfl, unopened⟩ := could
  obtain ⟨inode, h₁, run, named, _, _, fds⟩ := Host.openFile_truncate name unopened
  have isOpen : (h₁.fds fd).isSome = true := by
    rw [fds, Function.update_self]
    rfl
  have closes := Close_eq_ok.mpr ⟨isOpen, rfl⟩
  refine ⟨{ h₁ with fds := Function.update h₁.fds fd none }, ?_, by simp [named]⟩
  simp only [create, OpenForWrite, run, Exec.ok_bind]
  exact closes

/-- What the host refuses ends in the assertion of `OpenForWrite`. -/
theorem create_refused {h : Host} (other : name ≠ []) (refused : ¬ CouldOpen h name grant) :
    create h name grant = .error .assertion := by
  have failed : h.openFile name .truncate grant = (none, h) := by
    unfold Host.openFile
    cases grant with
    | none => rfl
    | some fd =>
      have isOpen : (h.fds fd).isSome = true := by
        rw [Option.isSome_iff_ne_none]
        exact fun unopened => refused ⟨other, fd, rfl, unopened⟩
      simp only [if_pos isOpen]
  simp only [create, OpenForWrite, failed, Exec.error_bind]

/-- The result of `Create`, for the name that arrives in the kernel. -/
theorem trap_create {filename : List Byte} (grant : Option Nat)
    (arrives : k.createName virtAddr = .ok filename) :
    k.trap (.create virtAddr grant) =
      Kernel.sysCreateFile { k with r2 := 4 } filename grant >>=
        fun (res, k') => .ok (some res, { k' with r2 := res }) := by
  have named : Kernel.createName { k with r2 := 4 } virtAddr = .ok filename := arrives
  simp only [trap, FileCall.code, handle_create, named, Exec.ok_bind]
  cases Kernel.sysCreateFile { k with r2 := 4 } filename grant <;> rfl

/-- The result of `Remove`. -/
theorem trap_remove {filename : List Byte} (permitted : Bool)
    (arrives : k.removeName virtAddr = .ok filename) :
    ∃ v, k.trap (.remove virtAddr permitted) = .ok (v, { k with
      r2 := if (remove k.host filename permitted).1 then 1 else 0
      host := (remove k.host filename permitted).2 }) := by
  have named : Kernel.removeName { k with r2 := 5 } virtAddr = .ok filename := arrives
  simp only [trap, FileCall.code, handle_remove, named, Exec.ok_bind]
  exact ⟨_, rfl⟩

/-- The three handlers pass on the same name, so that what `Create` has made `Remove`
removes, if the host permits it. -/
structure SameName (k : Kernel) (virtAddr : CInt) : Prop where
  passed : ∃ filename, k.createName virtAddr = .ok filename ∧
    k.openName virtAddr = .ok filename ∧ k.removeName virtAddr = .ok filename
  removed : ∀ grant v k₁, k.trap (.create virtAddr grant) = .ok (v, k₁) → k₁.r2 = 0 →
    ∃ v' k₂, k₁.trap (.remove virtAddr true) = .ok (v', k₂) ∧ k₂.r2 = 1 ∧
      ∀ filename, k.createName virtAddr = .ok filename → k₂.host.names filename = none

/-- A successful `Create` leaves the name in use and the memory as it was. -/
theorem trap_create_zero {filename : List Byte} {v : Option Int} {k₁ : Kernel}
    (arrives : k.createName virtAddr = .ok filename)
    (run : k.trap (.create virtAddr grant) = .ok (v, k₁)) (success : k₁.r2 = 0) :
    (k₁.host.names filename).isSome = true ∧ k₁.memory = k.memory := by
  rw [trap_create grant arrives] at run
  obtain ⟨⟨res, k₂⟩, call, rest⟩ := Exec.bind_eq_ok.mp run
  cases rest
  change res = 0 at success
  subst success
  unfold sysCreateFile at call
  split at call
  next => cases call
  next nonempty =>
    obtain ⟨host, made, rest⟩ := Exec.bind_eq_ok.mp call
    cases rest
    refine ⟨?_, rfl⟩
    have other : filename ≠ [] := fun empty => nonempty (by rw [empty]; rfl)
    by_cases could : CouldOpen k.host filename grant
    · obtain ⟨h', made', named⟩ := create_couldOpen could
      rw [made'] at made
      cases made
      exact named
    · rw [create_refused other could] at made
      cases made

/-- `Remove` of a name in use. -/
theorem remove_used {h : Host} (used : (h.names name).isSome = true) :
    remove h name true = (true, { h with names := Function.update h.names name none }) := by
  simp only [remove, Host.unlink, used, Bool.and_true, if_true, decide_true]

end Kernel

/-- `Create`, `Open` and `Remove` agree on the names of at most `MaxFileLength` bytes,
and on no others. -/
theorem sameName_iff {k : Kernel} {virtAddr : CInt} {name : List Byte}
    (stores : k.memory.Stores virtAddr.toInt name) :
    k.SameName virtAddr ↔ (name.length : Int) ≤ MaxFileLength := by
  have created := Kernel.createName_stores stores
  have removes := Kernel.removeName_stores stores
  constructor
  · rintro ⟨⟨filename, create, _, remove⟩, _⟩
    rw [created] at create
    rw [removes] at remove
    cases create
    have lengths : (name.take 33).length = (name.take 32).length :=
      congrArg List.length (Except.ok.inj remove)
    rw [List.length_take, List.length_take] at lengths
    unfold MaxFileLength
    omega
  · intro short
    unfold MaxFileLength at short
    rw [List.take_of_length_le (by omega)] at created removes
    refine ⟨⟨name, created, created, removes⟩, fun grant v k₁ run success => ?_⟩
    obtain ⟨used, memory⟩ := Kernel.trap_create_zero created run success
    have arrives : k₁.removeName virtAddr = .ok name := by
      unfold Kernel.removeName
      rw [memory]
      exact removes
    obtain ⟨v', again⟩ := Kernel.trap_remove true arrives
    rw [Kernel.remove_used used] at again
    refine ⟨v', _, again, rfl, fun filename same => ?_⟩
    rw [created] at same
    cases same
    exact Function.update_self _ _ _

/-- A memory with a string at address 0, on the host without files. -/
def Kernel.holding (name : List Byte) : Kernel :=
  Kernel.empty bareHost {
    byte := fun addr => bufferOf name addr.toNat
    readable := fun _ => true
    writable := fun _ => true }

def shortName : List Byte := Kernel.nameOf ['a', '.', 't', 'x', 't']

theorem sameName_iff_short :
    (Kernel.holding shortName).SameName 0 := by
  have stores : (Kernel.holding shortName).memory.Stores
      (0 : CInt).toInt shortName := by decide
  exact (sameName_iff stores).mpr (by decide)

/-- A name of 33 bytes: `Remove` does not find what `Create` has made. -/
theorem longName_kept : ¬ ∀ (k : Kernel) (virtAddr : CInt) (name : List Byte),
    k.memory.Stores virtAddr.toInt name → k.SameName virtAddr := by
  intro same
  have long := same (Kernel.holding (List.replicate 33 97)) 0 (List.replicate 33 97)
    (by decide +kernel)
  have made : ((Kernel.holding (List.replicate 33 97)).trap (.create 0 (some 3))).toOption.map
      (fun r => r.2.r2) = some 0 := by decide +kernel
  obtain ⟨⟨v, k₁⟩, created, success⟩ := Option.map_eq_some_iff.mp made
  have kept : ((Kernel.holding (List.replicate 33 97)).trap (.create 0 (some 3))).toOption.bind
      (fun r => (r.2.trap (.remove 0 true)).toOption.map fun r => r.2.r2) = some 0 := by
    decide +kernel
  rw [created] at kept
  obtain ⟨v', k₂, removes, result, _⟩ :=
    long.removed (some 3) v k₁ (Exec.toOption_eq_some.mp created) success
  rw [Option.bind_some, removes] at kept
  have zero : k₂.r2 = 0 := Option.some.inj kept
  rw [result] at zero
  exact absurd zero (by decide)

namespace Kernel

/-- `Create` returns, and reports what the host did with the name it was given. -/
def CreateReports (k : Kernel) (virtAddr : CInt) (grant : Option Nat) (name : List Byte) : Prop :=
  ∃ v k', k.trap (.create virtAddr grant) = .ok (v, k') ∧
    (CouldOpen k.host name grant → k'.r2 = 0) ∧
    (¬ CouldOpen k.host name grant → k'.r2 = -1 ∧ k'.host = k.host)

end Kernel

/-- `Create` returns to the user program exactly if there is no name to open, or the
host opens the file; any other failure aborts the kernel. -/
theorem create_reports_iff {k : Kernel} {virtAddr : CInt} {name : List Byte} {grant : Option Nat}
    (stores : k.memory.Stores virtAddr.toInt name) :
    k.CreateReports virtAddr grant (name.take 32) ↔
      name = [] ∨ Kernel.CouldOpen k.host (name.take 32) grant := by
  have call := Kernel.trap_create grant (Kernel.createName_stores stores)
  unfold Kernel.sysCreateFile at call
  constructor
  · rintro ⟨v, k', run, _⟩
    by_contra neither
    obtain ⟨other, refused⟩ := not_or.mp neither
    have nonempty : name.take 32 ≠ [] := by simpa using other
    rw [if_neg (by simpa using other), Kernel.create_refused nonempty refused] at call
    rw [call] at run
    cases run
  · rintro (rfl | could)
    · rw [List.take_nil, if_pos List.length_nil] at call
      exact ⟨_, _, call, fun could => absurd rfl could.1, fun _ => ⟨rfl, rfl⟩⟩
    · obtain ⟨host, made, _⟩ := Kernel.create_couldOpen could
      rw [if_neg (fun empty => could.1 (List.length_eq_zero_iff.mp empty)), made] at call
      exact ⟨_, _, call, fun _ => rfl, fun refused => absurd could refused⟩

theorem create_reports_iff_granted : (Kernel.holding shortName).CreateReports
    0 (some 3) shortName := by
  have stores : (Kernel.holding shortName).memory.Stores
      (0 : CInt).toInt shortName := by decide
  exact (create_reports_iff stores).mpr (.inr ⟨by decide, 3, rfl, rfl⟩)

/-- The host refuses the file: the kernel aborts. -/
theorem create_refused_aborts : ¬ ∀ (k : Kernel) (virtAddr : CInt) (name : List Byte)
    (grant : Option Nat), k.memory.Stores virtAddr.toInt name →
      k.CreateReports virtAddr grant (name.take 32) := by
  intro reports
  obtain ⟨v, k', run, _⟩ := reports (Kernel.holding shortName) 0
    shortName none (by decide)
  have aborts : ((Kernel.holding shortName).trap
      (.create 0 none)).toOption.isSome = false := by decide +kernel
  rw [run] at aborts
  cases aborts

namespace Kernel

/-- The host opens a file that exists: it gives a descriptor for it, and the length of
the file is one that `off_t` can express. -/
def Openable (h : Host) (name : List Byte) (grant : Option Nat) : Prop :=
  ∃ fd inode, grant = some fd ∧ h.fds fd = none ∧ h.names name = some inode ∧
    (h.contents inode).length ≤ OFF_MAX

/-- Slot `r2` was NULL and holds a new object over a new descriptor of the file, at its
start; all other slots are as before. -/
def OpensFresh (k : Kernel) (filename : List Byte) (type : Int) (k' : Kernel) : Prop :=
  ∃ (slot inode : Nat) (f : OpenFile), k'.r2 = slot ∧ 2 ≤ slot ∧ slot ≤ 14 ∧
    k.openf slot = none ∧ k'.openf = Function.update k.openf slot (some k.nextObject) ∧
    k'.objects = Function.update k.objects k.nextObject (some f) ∧ f.type = type ∧
    f.currentOffset = 0 ∧ k.host.names filename = some inode ∧ k.host.fds f.file = none ∧
    k'.host.fds = Function.update k.host.fds f.file (some ⟨inode, 0, true, decide (type = 0)⟩)

/-- The table is as before. -/
def SameTable (k k' : Kernel) : Prop := k'.openf = k.openf ∧ k'.objects = k.objects

def OpensConsole (k : Kernel) (type : Int) (k' : Kernel) : Prop :=
  (type = 2 ∧ k'.r2 = 0 ∨ type = 3 ∧ k'.r2 = 1) ∧ k.SameTable k'

def OpenFails (k k' : Kernel) : Prop := k'.r2 = -1 ∧ k.SameTable k'

/-- What `Open` promises its caller. -/
def OpenOutcome (k : Kernel) (filename : List Byte) (type : Int) (k' : Kernel) : Prop :=
  (k.OpensFresh filename type k' ∧ ¬ k.OpensConsole type k' ∧ ¬ k.OpenFails k') ∨
  (¬ k.OpensFresh filename type k' ∧ k.OpensConsole type k' ∧ ¬ k.OpenFails k') ∨
  (¬ k.OpensFresh filename type k' ∧ ¬ k.OpensConsole type k' ∧ k.OpenFails k')

variable {k k' : Kernel} {name : List Byte} {grant : Option Nat} {type : Int}

section OpenCall

variable {h : Host}

theorem openFile_refused (mode : OpenMode) (existing : mode ≠ .truncate)
    (refused : ¬ Openable h name grant) : h.openFile name mode grant = (none, h) := by
  unfold Host.openFile Host.resolve
  cases grant with
  | none => rfl
  | some fd =>
    simp only
    split
    next => rfl
    next closed =>
      have unopened : h.fds fd = none := by simpa using closed
      cases found : h.names name with
      | none =>
        cases mode with
        | truncate => exact absurd rfl existing
        | readWrite => rfl
        | readOnly => rfl
      | some inode =>
        have large : ¬ (h.contents inode).length ≤ OFF_MAX :=
          fun small => refused ⟨fd, inode, rfl, unopened, found, small⟩
        cases mode with
        | truncate => exact absurd rfl existing
        | readWrite => simp only [if_neg large]
        | readOnly => simp only [if_neg large]

/-- `FileSystem::Open(name, type)` for the types of files. -/
theorem openType_openable {fd inode : Nat} (file : type = 0 ∨ type = 1)
    (unopened : h.fds fd = none) (found : h.names name = some inode)
    (small : (h.contents inode).length ≤ OFF_MAX) :
    openType h name type (some fd) = .ok (some (OpenFile.new fd type), { h with
      fds := Function.update h.fds fd (some ⟨inode, 0, true, decide (type = 0)⟩) }) := by
  rcases file with rfl | rfl
  · simp only [openType, if_true, Host.openFile_existing .readWrite (by decide) unopened found small]
    rfl
  · simp only [openType, Host.openFile_existing .readOnly (by decide) unopened found small]
    rfl

theorem openType_refused (file : type = 0 ∨ type = 1) (refused : ¬ Openable h name grant) :
    openType h name type grant = .ok (none, h) := by
  rcases file with rfl | rfl
  · simp only [openType, if_true, openFile_refused .readWrite (by decide) refused]
    rfl
  · simp only [openType, openFile_refused .readOnly (by decide) refused]
    rfl

end OpenCall

/-- The outcomes exclude each other: the values of register 2 differ. -/
theorem openOutcome_iff_some :
    k.OpenOutcome name type k' ↔
      k.OpensFresh name type k' ∨ k.OpensConsole type k' ∨ k.OpenFails k' := by
  have fresh : k.OpensFresh name type k' → 2 ≤ k'.r2 := by
    rintro ⟨slot, _, _, result, low, _⟩
    omega
  have console : k.OpensConsole type k' → 0 ≤ k'.r2 ∧ k'.r2 < 2 := by
    rintro ⟨results, _⟩
    omega
  have fails : k.OpenFails k' → k'.r2 = -1 := And.left
  unfold OpenOutcome
  constructor
  · rintro (⟨yes, _⟩ | ⟨_, yes, _⟩ | ⟨_, _, yes⟩)
    · exact .inl yes
    · exact .inr (.inl yes)
    · exact .inr (.inr yes)
  · rintro (yes | yes | yes)
    · have := fresh yes
      exact .inl ⟨yes, fun no => by have := console no; omega, fun no => by have := fails no; omega⟩
    · have := console yes
      exact .inr (.inl ⟨fun no => by have := fresh no; omega, yes,
        fun no => by have := fails no; omega⟩)
    · have := fails yes
      exact .inr (.inr ⟨fun no => by have := fresh no; omega,
        fun no => by have := console no; omega, yes⟩)

/-- A call that leaves its own number in register 2 and the table as it was. -/
theorem silent_not_outcome (number : k'.r2 = 6) (same : k'.openf = k.openf) :
    ¬ k.OpenOutcome name type k' := by
  rw [openOutcome_iff_some]
  rintro (⟨slot, _, _, _, _, _, free, openf, _⟩ | ⟨results, _⟩ | ⟨failed, _⟩)
  · rw [same] at openf
    have filled := congrFun openf slot
    rw [Function.update_self, free] at filled
    cases filled
  · omega
  · omega

/-- `SysOpen` with a free slot, for the types of files. -/
theorem sysOpen_file {slot : Nat} (free : k.findFreeSlot = some slot)
    (file : type = 0 ∨ type = 1) :
    k.sysOpen name type grant = (do
      let (file, host) ← openType k.host name type grant
      match file with
      | some f => .ok (some (slot : Int), { k with host }.install slot f)
      | none => .ok (none, { k with host })) := by
  have console : ¬ type = 2 ∧ ¬ type = 3 := by omega
  unfold sysOpen
  rw [free]
  exact (if_neg console.1).trans ((if_neg console.2).trans (if_pos file))

end Kernel

/-- `Open` keeps its promise exactly if the table is full, the type is one of the
console, or the host opens the file. -/
theorem open_outcome_iff {k k' : Kernel} {virtAddr type : CInt} {grant : Option Nat} {v : Option Int}
    (run : k.trap (.openFile virtAddr type grant) = .ok (v, k')) :
    k.OpenOutcome (k.memory.stringAt virtAddr.toInt 32) type.toInt k' ↔
      k.findFreeSlot = none ∨ type.toInt = 2 ∨ type.toInt = 3 ∨
        (type.toInt = 0 ∨ type.toInt = 1) ∧
          Kernel.Openable k.host (k.memory.stringAt virtAddr.toInt 32) grant := by
  obtain ⟨⟨v₁, k₁⟩, handled, rest⟩ := Exec.bind_eq_ok.mp run
  cases rest
  rw [Kernel.handle_open] at handled
  obtain ⟨filename, arrives, call⟩ := Exec.bind_eq_ok.mp handled
  obtain rfl : filename = k.memory.stringAt virtAddr.toInt 32 :=
    UserMemory.user2System_stringAt arrives
  generalize k.memory.stringAt virtAddr.toInt 32 = filename at *
  generalize type.toInt = type at *
  have start : Kernel.findFreeSlot { k with r2 := 6 } = k.findFreeSlot := rfl
  cases free : k.findFreeSlot with
  | none =>
    simp only [Kernel.sysOpen, FileCall.code, start, free] at call
    cases call
    exact iff_of_true (Kernel.openOutcome_iff_some.mpr (.inr (.inr ⟨rfl, rfl, rfl⟩))) (.inl rfl)
  | some slot =>
    by_cases input : type = 2
    · simp only [Kernel.sysOpen, FileCall.code, start, free, if_pos input] at call
      cases call
      exact iff_of_true (Kernel.openOutcome_iff_some.mpr
        (.inr (.inl ⟨.inl ⟨input, rfl⟩, rfl, rfl⟩))) (.inr (.inl input))
    · by_cases output : type = 3
      · simp only [Kernel.sysOpen, FileCall.code, start, free, if_neg input, if_pos output] at call
        cases call
        exact iff_of_true (Kernel.openOutcome_iff_some.mpr
          (.inr (.inl ⟨.inr ⟨output, rfl⟩, rfl, rfl⟩))) (.inr (.inr (.inl output)))
      · by_cases file : type = 0 ∨ type = 1
        · rw [FileCall.code, Kernel.sysOpen_file (start.trans free) file] at call
          by_cases openable : Kernel.Openable k.host filename grant
          · have granted := openable
            obtain ⟨fd, inode, rfl, unopened, found, small⟩ := granted
            rw [Kernel.openType_openable file unopened found small] at call
            cases call
            obtain ⟨low, high, empty⟩ := Kernel.findFreeSlot_some free
            have top : slot ≤ 14 := Nat.le_of_lt_succ high
            refine iff_of_true (Kernel.openOutcome_iff_some.mpr (.inl ?_))
              (.inr (.inr (.inr ⟨file, openable⟩)))
            exact ⟨slot, inode, OpenFile.new fd type, rfl, low, top, empty, rfl, rfl, rfl, rfl,
              found, unopened, rfl⟩
          · rw [Kernel.openType_refused file openable] at call
            cases call
            refine iff_of_false (Kernel.silent_not_outcome rfl rfl) ?_
            rintro (full | two | three | ⟨_, granted⟩)
            · cases full
            · exact input two
            · exact output three
            · exact openable granted
        · simp only [Kernel.sysOpen, FileCall.code, start, free, if_neg input, if_neg output,
            if_neg file] at call
          cases call
          refine iff_of_false (Kernel.silent_not_outcome rfl rfl) ?_
          rintro (full | two | three | ⟨known, _⟩)
          · cases full
          · exact input two
          · exact output three
          · exact file known

/-- A host with one file, under a given name, and a kernel that holds its name. -/
def Kernel.withFile (name bytes : List Byte) : Kernel :=
  { Kernel.holding name with
    host := { bareHost with
      names := Function.update (fun _ => none) name (some 0)
      contents := fun _ => bytes
      nextInode := 1 } }

theorem open_outcome_iff_granted :
    ∃ k', (Kernel.withFile shortName [1, 2]).OpenOutcome shortName 0 k' ∧
    k'.r2 = 2 := by
  have returns : ((Kernel.withFile shortName [1, 2]).trap (.openFile 0 0 (some 3))).toOption.map
      (fun r => r.2.r2) = some 2 := by decide +kernel
  obtain ⟨⟨v, k'⟩, run, result⟩ := Option.map_eq_some_iff.mp returns
  refine ⟨k', ?_, result⟩
  apply (open_outcome_iff (Exec.toOption_eq_some.mp run)).mpr
  exact .inr (.inr (.inr ⟨.inl rfl, 3, 0, rfl, rfl, by decide +kernel, by decide⟩))

/-- A file that does not exist: register 2 holds 6 afterwards, the number of the call. -/
theorem open_silent :
    ¬ ∀ (k k' : Kernel) (virtAddr type : CInt) (grant : Option Nat) (v : Option Int),
    k.trap (.openFile virtAddr type grant) = .ok (v, k') →
      k.OpenOutcome (k.memory.stringAt virtAddr.toInt 32) type.toInt k' := by
  intro promised
  have returns : ((Kernel.holding shortName).trap (.openFile 0 0 (some 3))).toOption.map
      (fun r => (r.2.r2, r.2.openf 6)) = some (6, none) := by decide +kernel
  obtain ⟨⟨v, k'⟩, run, result⟩ := Option.map_eq_some_iff.mp returns
  injection result with number empty
  have outcome := promised _ k' 0 0 (some 3) v (Exec.toOption_eq_some.mp run)
  rcases Kernel.openOutcome_iff_some.mp outcome with
    ⟨slot, _, _, same, _, _, _, openf, _⟩ | ⟨results, _⟩ | ⟨failed, _⟩
  · obtain rfl : slot = 6 := by
      have : k'.r2 = 6 := number
      omega
    have filled := congrFun openf 6
    rw [Function.update_self] at filled
    rw [show k'.openf 6 = none from empty] at filled
    cases filled
  · have : k'.r2 = 6 := number
    omega
  · have : k'.r2 = 6 := number
    omega

end NachOS.Stub
