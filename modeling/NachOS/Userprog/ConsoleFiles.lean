import NachOS.Filesys.Consistency
import NachOS.Userprog.Sessions

/-!
# The console files (filesys/filesys.cc:81-155, 254-279, filesys/filesys.h:56-67)

Both constructors of `FileSystem` put the console into slots 0 and 1 of the table. The
stub creates the two files and then opens them. The one for the disk opens them first,
and with an `Open` that fills a slot of its own: the first time there is nothing to
open, and from then on each file is in the table twice. So it leaves the table that the
stub leaves on no disk at all (`consoleTable_never`).
-/
namespace NachOS.Filesys
open NachOS.Lib

/-- Slots 0 and 1 lead to two open files with the types of the console, all others are
NULL, and no object is in the table twice. -/
structure ConsoleTable (openf : Nat → Option Nat) (type : Nat → Option Int) : Prop where
  input : ∃ a, openf 0 = some a ∧ type a = some 2
  output : ∃ b, openf 1 = some b ∧ type b = some 3
  empty : ∀ i, 2 ≤ i → i < MAX_FILE_OPEN → openf i = none
  unshared : ∀ i j a, i < MAX_FILE_OPEN → j < MAX_FILE_OPEN →
    openf i = some a → openf j = some a → i = j

/-- The file system with the types of its `OpenFile` objects. -/
structure TypedSystem where
  fs : FileSystem
  types : Nat → Option Int

namespace TypedSystem

/-- The type of an object that exists. -/
def type (s : TypedSystem) (k : Nat) : Option Int := (s.fs.handles k).bind fun _ => s.types k

/-- `FileSystem::Open(name, type)`. -/
def openType (s : TypedSystem) (heap : Nat → Buf) (name : Buf) (type : Int) :
    Exec (Option Nat × TypedSystem) :=
  match s.fs.findFreeSlot with
  | none => .error .outOfBounds
  | some freeSlot => do
    let directory ← s.fs.fetchDirectory (heap 0)
    if 0 ≤ directory.find name then
      let (k, fs) ← s.fs.newHandle (directory.find name)
      .ok (some k, {
        fs := { fs with openf := Function.update fs.openf freeSlot (some k) }
        types := Function.update s.types k (some type) })
    else .ok (s.fs.openf freeSlot, s)

/-- `openf[slot] = file`. -/
def setSlot (s : TypedSystem) (slot : Nat) (file : Option Nat) : TypedSystem :=
  { s with fs := { s.fs with openf := Function.update s.fs.openf slot file } }

/-- `FileSystem::Create`. -/
def create (s : TypedSystem) (heap : Nat → Buf) (name : Buf) (initialSize : Int) :
    Exec (Bool × TypedSystem) := do
  let (created, fs) ← s.fs.create heap name initialSize
  .ok (created, { s with fs })

/-- The part of `FileSystem(FALSE)` that opens the files of the free map and the
directory. -/
def mount (disk : Disk) : Exec FileSystem := do
  let freeMapFile ← OpenFile.new disk FreeMapSector
  let directoryFile ← OpenFile.new disk DirectorySector
  .ok { disk, freeMapFile, directoryFile, openf := fun _ => none, handles := fun _ => none,
        nextHandle := 0 }

/-- The two files of the file system itself, on a disk that is formatted first or not. -/
def start (format : Bool) (disk : Disk) (heap : Nat → Buf) : Exec FileSystem :=
  if format then FileSystem.format disk heap else mount disk

/-- `FileSystem(format)`. -/
def construct (format : Bool) (disk : Disk) (heap : Nat → Nat → Buf) : Exec TypedSystem := do
  let fs ← start format disk (heap 0)
  let s : TypedSystem := ⟨fs, fun _ => none⟩
  let (input, s) ← s.openType (heap 1) (cString ['s', 't', 'd', 'i', 'n']) 2
  let s := s.setSlot 0 input
  let (output, s) ← s.openType (heap 2) (cString ['s', 't', 'd', 'o', 'u', 't']) 3
  let s := s.setSlot 1 output
  let (_, s) ← s.create (heap 3) (cString ['s', 't', 'd', 'i', 'n']) 0
  let (_, s) ← s.create (heap 4) (cString ['s', 't', 'd', 'o', 'u', 't']) 0
  .ok s

variable {s s' : TypedSystem} {heap : Nat → Buf} {name : Buf} {type : Int} {r : Option Nat}

/-- `Open` fills the first free slot and returns what is in it. -/
theorem openType_openf (run : s.openType heap name type = .ok (r, s')) :
    ∃ slot, s.fs.findFreeSlot = some slot ∧ s'.fs.openf = Function.update s.fs.openf slot r := by
  unfold openType at run
  cases free : s.fs.findFreeSlot with
  | none =>
    rw [free] at run
    cases run
  | some slot =>
    rw [free] at run
    obtain ⟨directory, _, run⟩ := Exec.bind_eq_ok.mp run
    refine ⟨slot, rfl, ?_⟩
    split at run
    next =>
      obtain ⟨⟨k, fs⟩, made, run⟩ := Exec.bind_eq_ok.mp run
      obtain ⟨file, _, made⟩ := Exec.bind_eq_ok.mp made
      cases made
      cases run
      rfl
    next =>
      cases run
      exact (Function.update_eq_self slot s.fs.openf).symm

/-- `Create` works on the disk alone. -/
theorem create_openf {created : Bool} {initialSize : Int}
    (run : s.create heap name initialSize = .ok (created, s')) : s'.fs.openf = s.fs.openf := by
  obtain ⟨⟨made, fs⟩, call, run⟩ := Exec.bind_eq_ok.mp run
  cases run
  obtain ⟨directory, _, call⟩ := Exec.bind_eq_ok.mp call
  split at call
  next =>
    cases call
    rfl
  next =>
    obtain ⟨freeMap, _, call⟩ := Exec.bind_eq_ok.mp call
    obtain ⟨⟨sector, freeMap⟩, _, call⟩ := Exec.bind_eq_ok.mp call
    dsimp only at call
    split at call
    next =>
      cases call
      rfl
    next =>
      split at call
      next =>
        cases call
        rfl
      next =>
        obtain ⟨⟨allocated, hdr, freeMap⟩, _, call⟩ := Exec.bind_eq_ok.mp call
        dsimp only at call
        split at call
        next =>
          cases call
          rfl
        next =>
          obtain ⟨disk₁, _, call⟩ := Exec.bind_eq_ok.mp call
          obtain ⟨disk₂, _, call⟩ := Exec.bind_eq_ok.mp call
          obtain ⟨disk₃, _, call⟩ := Exec.bind_eq_ok.mp call
          cases call
          rfl

/-- Both ways to start leave all slots NULL. -/
theorem start_openf {format : Bool} {disk : Disk} {fs : FileSystem}
    (run : start format disk heap = .ok fs) : fs.openf = fun _ => none := by
  cases format with
  | true =>
    change FileSystem.format disk heap = .ok fs at run
    unfold FileSystem.format at run
    -- only the last of the steps of `format` makes the table
    iterate 12 obtain ⟨_, -, run⟩ := Exec.bind_eq_ok.mp run
    cases run
    rfl
  | false =>
    obtain ⟨_, _, run⟩ := Exec.bind_eq_ok.mp run
    obtain ⟨_, _, run⟩ := Exec.bind_eq_ok.mp run
    cases run
    rfl

/-- What the first `Open` returns is in slot 0 and in slot 2, what the second returns is
in slot 1 and in the first slot that was still free. -/
theorem construct_openf {format : Bool} {disk : Disk} {heap : Nat → Nat → Buf}
    (run : construct format disk heap = .ok s) : ∃ input output,
      s.fs.openf = Function.update (Function.update (Function.update (Function.update
        (fun _ => none) 2 input) 0 input) (if input.isSome then 3 else 2) output) 1 output := by
  unfold construct at run
  obtain ⟨fs, started, run⟩ := Exec.bind_eq_ok.mp run
  obtain ⟨⟨input, s₁⟩, open₁, run⟩ := Exec.bind_eq_ok.mp run
  obtain ⟨⟨output, s₂⟩, open₂, run⟩ := Exec.bind_eq_ok.mp run
  obtain ⟨⟨_, s₃⟩, create₁, run⟩ := Exec.bind_eq_ok.mp run
  obtain ⟨⟨_, s₄⟩, create₂, run⟩ := Exec.bind_eq_ok.mp run
  cases run
  obtain ⟨slot₁, free₁, openf₁⟩ := openType_openf open₁
  obtain ⟨slot₂, free₂, openf₂⟩ := openType_openf open₂
  unfold FileSystem.findFreeSlot at free₁ free₂
  have blank := start_openf started
  dsimp only [setSlot] at *
  rw [blank] at free₁ openf₁
  cases free₁
  rw [openf₁] at free₂ openf₂
  refine ⟨input, output, ?_⟩
  rw [create_openf create₂, create_openf create₁]
  dsimp only [setSlot]
  rw [openf₂]
  cases input with
  | none =>
    cases free₂
    rfl
  | some a =>
    cases free₂
    rfl

/-- `Open` is the `Open` of the file system without types. -/
theorem openType_forget (run : s.openType heap name type = .ok (r, s')) :
    s.fs.openSlot heap name = .ok (r, s'.fs) := by
  unfold openType at run
  unfold FileSystem.openSlot
  cases free : s.fs.findFreeSlot with
  | none =>
    rw [free] at run
    cases run
  | some slot =>
    rw [free] at run
    obtain ⟨directory, fetched, run⟩ := Exec.bind_eq_ok.mp run
    simp only [fetched, Exec.ok_bind]
    split at run
    next found =>
      obtain ⟨⟨k, fs⟩, made, run⟩ := Exec.bind_eq_ok.mp run
      cases run
      rw [if_pos found, made]
      rfl
    next missing =>
      cases run
      rw [if_neg missing]

/-- The runs of the file system start with this constructor. -/
theorem construct_init {disk : Disk} {heap : Nat → Nat → Buf}
    (run : construct true disk heap = .ok s) : fsMachine.init s.fs := by
  unfold construct at run
  obtain ⟨fs, started, run⟩ := Exec.bind_eq_ok.mp run
  obtain ⟨⟨input, s₁⟩, open₁, run⟩ := Exec.bind_eq_ok.mp run
  obtain ⟨⟨output, s₂⟩, open₂, run⟩ := Exec.bind_eq_ok.mp run
  obtain ⟨⟨_, s₃⟩, create₁, run⟩ := Exec.bind_eq_ok.mp run
  obtain ⟨⟨_, s₄⟩, create₂, run⟩ := Exec.bind_eq_ok.mp run
  cases run
  obtain ⟨⟨_, fs₃⟩, made₁, rest⟩ := Exec.bind_eq_ok.mp create₁
  cases rest
  obtain ⟨⟨_, fs₄⟩, made₂, rest⟩ := Exec.bind_eq_ok.mp create₂
  cases rest
  have formatted : FileSystem.format disk (heap 0) = .ok fs := started
  have open₁ := openType_forget open₁
  have open₂ := openType_forget open₂
  dsimp only [setSlot] at open₁ open₂ made₁ made₂
  refine ⟨disk, heap, ?_⟩
  simp only [FileSystem.new, formatted, open₁, open₂, made₁, made₂, Exec.ok_bind]

end TypedSystem

/-- On no disk, formatted or not, does the constructor leave the table that the stub
leaves: slot 0 is NULL, or slot 2 holds the same object. -/
theorem consoleTable_never (format : Bool) (disk : Disk) (heap : Nat → Nat → Buf) :
    ¬ ∃ s, TypedSystem.construct format disk heap = .ok s ∧
      ConsoleTable s.fs.openf s.type := by
  rintro ⟨s, run, table⟩
  obtain ⟨input, output, openf⟩ := TypedSystem.construct_openf run
  obtain ⟨a, first, _⟩ := table.input
  have second := table.empty 2 le_rfl (by decide)
  rw [openf] at first second
  cases input with
  | none => cases first
  | some b => cases second

/-- A disk is formatted by one run; in the next one standard input is in the table
twice. -/
theorem consoleTable_second_run : ¬ ∀ s₀, fsMachine.Reachable s₀ → ∀ format heap, ∃ s,
    TypedSystem.construct format s₀.disk heap = .ok s ∧ ConsoleTable s.fs.openf s.type := by
  intro always
  have twice : ((TypedSystem.construct true (fun _ => blank) fun _ _ => blank).toOption.bind
      fun s₀ => (TypedSystem.construct false s₀.fs.disk fun _ _ => blank).toOption.map
        fun s => (s.fs.openf 0, s.fs.openf 2)) = some (some 0, some 0) := by decide +kernel
  obtain ⟨s₀, first, second⟩ := Option.bind_eq_some_iff.mp twice
  have reachable : fsMachine.Reachable s₀.fs :=
    Machine.Reachable.init (TypedSystem.construct_init (Exec.toOption_eq_some.mp first))
  obtain ⟨s, run, table⟩ := always s₀.fs reachable false fun _ _ => blank
  rw [run] at second
  injection Option.some.inj second with input copy
  exact absurd (table.unshared 0 2 0 (by decide) (by decide) input copy) (by decide)

end NachOS.Filesys

namespace NachOS.Stub
open NachOS.Lib NachOS.Filesys

/-- The stub leaves this table whenever the host opens standard input for it. -/
theorem Kernel.boot_consoleTable {host : Host} {memory : UserMemory} {grant : Nat → Option Nat}
    {k : Kernel} (run : Kernel.boot host memory grant = .ok k) (input : (k.openf 0).isSome = true) :
    ConsoleTable k.openf fun a => (k.objects a).map OpenFile.type := by
  obtain ⟨host₁, _, run⟩ := Exec.bind_eq_ok.mp run
  obtain ⟨host₂, _, run⟩ := Exec.bind_eq_ok.mp run
  obtain ⟨⟨file₁, host₃⟩, open₁, run⟩ := Exec.bind_eq_ok.mp run
  obtain ⟨⟨file₂, host₄⟩, open₂, run⟩ := Exec.bind_eq_ok.mp run
  cases run
  obtain ⟨f, rfl, kind₁⟩ : ∃ f, file₁ = some f ∧ f.type = 2 := by
    rcases Kernel.openType_cases open₁ with ⟨rfl, _⟩ | ⟨f, rfl, opened⟩
    · cases file₂ with
      | none => cases input
      | some g => cases input
    · exact ⟨f, rfl, opened.type⟩
  obtain ⟨g, rfl, kind₂⟩ : ∃ g, file₂ = some g ∧ g.type = 3 := by
    rcases Kernel.openType_cases open₂ with ⟨rfl, _⟩ | ⟨g, rfl, opened⟩
    · obtain ⟨_, _, rest⟩ := Exec.bind_eq_ok.mp open₂
      cases rest
    · exact ⟨g, rfl, opened.type⟩
  have table : (Kernel.installIfAny { (Kernel.empty host₃ memory).installIfAny 0 (some f) with
      host := host₄ } 1 (some g)).openf =
        Function.update (Function.update (fun _ => none) 0 (some 0)) 1 (some 1) := rfl
  have slot : ∀ i a, Function.update (Function.update (fun _ => none) 0 (some 0)) 1 (some 1) i =
      some a → i = a ∧ i < 2 := by
    intro i a pointer
    simp only [Function.update_apply] at pointer
    split at pointer
    next => cases pointer; omega
    next =>
      split at pointer
      next => cases pointer; omega
      next => cases pointer
  constructor
  · exact ⟨0, rfl, congrArg some kind₁⟩
  · exact ⟨1, rfl, congrArg some kind₂⟩
  · intro i low _
    rw [table]
    by_contra filled
    obtain ⟨a, pointer⟩ := Option.ne_none_iff_exists'.mp filled
    have := slot i a pointer
    omega
  · intro i j a _ _ first second
    rw [table] at first second
    rw [(slot i a first).1, (slot j a second).1]

end NachOS.Stub
