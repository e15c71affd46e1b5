import NachOS.Userprog.Seeks
import NachOS.Userprog.Sessions

/-!
# Two files open at a time (userprog/ksyscall.h:237-400, filesys/filesys.h:51-128)

What `Open`, `Create`, `Close` and `Seek` do to the kernel, for a caller that has one file
to read from and another to write to. Every transfer and every seek changes one object and
the offset of its descriptor (`transferred`), so that the other file stays where it is.
-/
namespace NachOS.Stub
open NachOS.Lib NachOS.Filesys

namespace Kernel

/-- The kernel after a call that has moved the descriptor of an object and left `contents`. -/
def transferred (k : Kernel) (a : Nat) (f : OpenFile) (d : Descriptor) (offset : Nat)
    (contents : Nat → List Byte) : Kernel :=
  { k.setObject a { f with currentOffset := offset } with
    host := { k.host.moveTo f.file d offset with contents } }

variable {k k' : Kernel} {id other : CInt} {a b : Nat} {f g : OpenFile} {d e : Descriptor}
  {offset : Nat} {contents : Nat → List Byte}

theorem OpenAt.transferred (isOpen : k.OpenAt id a f d) (max : offset ≤ OFF_MAX)
    (small : (contents d.inode).length ≤ OFF_MAX) :
    (k.transferred a f d offset contents).OpenAt id a { f with currentOffset := offset }
      { d with offset } where
  range := isOpen.range
  pointer := isOpen.pointer
  object := Function.update_self _ _ _
  ready := ⟨Host.moveTo_self _, isOpen.ready.readable, isOpen.ready.writable, max, small⟩

theorem OpenAt.transferred_other (isOpen : k.OpenAt other b g e) (objects : b ≠ a)
    (files : g.file ≠ f.file) (small : (contents e.inode).length ≤ OFF_MAX) :
    (k.transferred a f d offset contents).OpenAt other b g e where
  range := isOpen.range
  pointer := isOpen.pointer
  object := (Function.update_of_ne objects _ _).trans isOpen.object
  ready := ⟨(Host.moveTo_other offset files).trans isOpen.ready.isOpen, isOpen.ready.readable,
    isOpen.ready.writable, isOpen.ready.offset, small⟩

/-- A file to read from and a file to write to. -/
structure Pair (k : Kernel) (src dst : CInt) (d e : Descriptor) : Prop where
  opened : ∃ a f b g, k.OpenAt src a f d ∧ k.OpenAt dst b g e ∧ a ≠ b ∧ f.file ≠ g.file ∧
    (f.type = 0 ∨ f.type = 1) ∧ g.type = 0
  apart : d.inode ≠ e.inode

/-- `SysSeek` to a place inside of the file. -/
theorem sysSeek_file (pos : CInt) (isOpen : k.OpenAt id a f d) {p : Nat}
    (target : k.seekTarget d pos = p) (inside : p ≤ k.fileLength d) :
    k.sysSeek pos.toInt id.toInt = .ok ((p : Int), k.transferred a f d p k.host.contents) := by
  have range := isOpen.range
  have accepted : ¬ (id.toInt < 2 ∨ id.toInt > MAX_FILE_OPEN) := by omega
  have console : ¬ (id.toInt = 0 ∨ id.toInt = 1) := by omega
  have within : ¬ ((p : Int) > k.fileLength d ∨ (p : Int) < 0) := by omega
  have small : k.fileLength d ≤ OFF_MAX := isOpen.ready.small
  have bound : p ≤ OFF_MAX := by omega
  obtain ⟨host, first, second⟩ := seekPosition_ready pos isOpen.ready
  have sought := seek_ready (ready_moved isOpen.ready small) bound
  rw [moveTo_moveTo] at sought
  rw [target] at first
  simp only [sysSeek, if_neg accepted, isOpen.slot, Exec.ok_bind, if_neg console, seekObject,
    object_eq_ok.mpr isOpen.object, first, second, if_neg within, sought]
  rfl

/-- The kernel after `Close` of a slot. -/
def withClosed (k : Kernel) (slot a : Nat) (f : OpenFile) : Kernel :=
  { k with
    host := { k.host with fds := Function.update k.host.fds f.file none }
    openf := Function.update k.openf slot none
    objects := Function.update k.objects a none }

@[simp] theorem withClosed_openf (k : Kernel) (slot a : Nat) (f : OpenFile) :
    (k.withClosed slot a f).openf = Function.update k.openf slot none :=
  rfl

theorem sysClose_slot {slot : Nat} (range : slot ≤ 14) (pointer : k.openf slot = some a)
    (object : k.objects a = some f) (isOpen : (k.host.fds f.file).isSome = true) :
    k.sysClose slot = .ok (0, k.withClosed slot a f) := by
  have inside : 0 ≤ (slot : Int) ∧ (slot : Int) ≤ 14 := by omega
  have closed := Close_eq_ok.mpr ⟨isOpen, rfl⟩
  unfold sysClose
  rw [if_pos inside, Int.toNat_natCast, pointer]
  simp only [object_eq_ok.mpr object, Exec.ok_bind, closed]
  rfl

/-- `SysClose` of a file. -/
theorem sysClose_file (isOpen : k.OpenAt id a f d) :
    k.sysClose id.toInt = .ok (0, k.withClosed id.toInt.toNat a f) := by
  have range := isOpen.range
  unfold MAX_FILE_OPEN at range
  have number : id.toInt = (id.toInt.toNat : Int) := by omega
  rw [number]
  exact sysClose_slot (by omega) isOpen.pointer isOpen.object (by rw [isOpen.ready.isOpen]; rfl)

/-- Closing another slot leaves a file open. -/
theorem OpenAt.withClosed (isOpen : k.OpenAt other b g e) {slot : Nat}
    (slots : other.toInt.toNat ≠ slot) (objects : b ≠ a) (files : g.file ≠ f.file) :
    (k.withClosed slot a f).OpenAt other b g e where
  range := isOpen.range
  pointer := (Function.update_of_ne slots _ _).trans isOpen.pointer
  object := (Function.update_of_ne objects _ _).trans isOpen.object
  ready := ⟨(Function.update_of_ne files _ _).trans isOpen.ready.isOpen, isOpen.ready.readable,
    isOpen.ready.writable, isOpen.ready.offset, isOpen.ready.small⟩

section Seek

variable {src dst pos : CInt} {p : Nat}

theorem Pair.seek_src (pair : k.Pair src dst d e) (target : k.seekTarget d pos = p)
    (inside : p ≤ k.fileLength d) :
    ∃ k', k.sysSeek pos.toInt src.toInt = .ok ((p : Int), k') ∧
      k'.Pair src dst { d with offset := p } e ∧ k'.host.contents = k.host.contents ∧
      k'.host.names = k.host.names := by
  obtain ⟨⟨a, f, b, g, first, second, objects, files, reads, writes⟩, apart⟩ := pair
  have small : k.fileLength d ≤ OFF_MAX := first.ready.small
  refine ⟨_, sysSeek_file pos first target inside, ⟨⟨a, { f with currentOffset := p }, b, g, ?_, ?_,
    objects, files, reads, writes⟩, apart⟩, rfl, rfl⟩
  · exact first.transferred (Nat.le_trans inside small) small
  · exact second.transferred_other objects.symm files.symm second.ready.small

theorem Pair.seek_dst (pair : k.Pair src dst d e) (target : k.seekTarget e pos = p)
    (inside : p ≤ k.fileLength e) :
    ∃ k', k.sysSeek pos.toInt dst.toInt = .ok ((p : Int), k') ∧
      k'.Pair src dst d { e with offset := p } ∧ k'.host.contents = k.host.contents ∧
      k'.host.names = k.host.names := by
  obtain ⟨⟨a, f, b, g, first, second, objects, files, reads, writes⟩, apart⟩ := pair
  have small : k.fileLength e ≤ OFF_MAX := second.ready.small
  refine ⟨_, sysSeek_file pos second target inside, ⟨⟨a, f, b, { g with currentOffset := p }, ?_,
    ?_, objects, files, reads, writes⟩, apart⟩, rfl, rfl⟩
  · exact first.transferred_other objects files first.ready.small
  · exact second.transferred (Nat.le_trans inside small) small

/-- Closing one file and then another keeps the contents. -/
theorem OpenAt.close_both (first : k.OpenAt src a f d) (second : k.OpenAt dst b g e)
    (objects : a ≠ b) (files : f.file ≠ g.file) :
    ∃ k₁ k₂, k.sysClose dst.toInt = .ok (0, k₁) ∧ k₁.sysClose src.toInt = .ok (0, k₂) ∧
      k₂.host.contents = k.host.contents ∧ k₂.host.names = k.host.names := by
  have slots : src.toInt.toNat ≠ dst.toInt.toNat := by
    intro same
    have pointer := first.pointer
    rw [same, second.pointer] at pointer
    cases pointer
    exact objects rfl
  exact ⟨_, _, sysClose_file second, sysClose_file (first.withClosed slots objects files), rfl,
    rfl⟩

theorem Pair.close_dst_src (pair : k.Pair src dst d e) :
    ∃ k₁ k₂, k.sysClose dst.toInt = .ok (0, k₁) ∧ k₁.sysClose src.toInt = .ok (0, k₂) ∧
      k₂.host.contents = k.host.contents ∧ k₂.host.names = k.host.names := by
  obtain ⟨a, f, b, g, first, second, objects, files, -⟩ := pair.opened
  exact first.close_both second objects files

theorem Pair.close_src_dst (pair : k.Pair src dst d e) :
    ∃ k₁ k₂, k.sysClose src.toInt = .ok (0, k₁) ∧ k₁.sysClose dst.toInt = .ok (0, k₂) ∧
      k₂.host.contents = k.host.contents ∧ k₂.host.names = k.host.names := by
  obtain ⟨a, f, b, g, first, second, objects, files, -⟩ := pair.opened
  exact second.close_both first objects.symm files.symm

end Seek

section Opening

variable {name : List Byte} {fd slot inode : Nat} {type : Int}

/-- The kernel after `Open` of a file that exists. -/
def withOpen (k : Kernel) (slot fd inode : Nat) (type : Int) : Kernel :=
  Kernel.install { k with host := { k.host with
    fds := Function.update k.host.fds fd (some ⟨inode, 0, true, decide (type = 0)⟩) } }
    slot (OpenFile.new fd type)

@[simp] theorem withOpen_openf (k : Kernel) (slot fd inode : Nat) (type : Int) :
    (k.withOpen slot fd inode type).openf = Function.update k.openf slot (some k.nextObject) :=
  rfl

theorem sysOpen_existing (free : k.findFreeSlot = some slot) (file : type = 0 ∨ type = 1)
    (unopened : k.host.fds fd = none) (found : k.host.names name = some inode)
    (small : (k.host.contents inode).length ≤ OFF_MAX) :
    k.sysOpen name type (some fd) = .ok (some (slot : Int), k.withOpen slot fd inode type) := by
  unfold sysOpen
  rw [free]
  rcases file with rfl | rfl
  · have opened := Host.openFile_existing .readWrite (by decide) unopened found small
    simp [openType, opened]
    rfl
  · have opened := Host.openFile_existing .readOnly (by decide) unopened found small
    simp [openType, opened]
    rfl

theorem withOpen_openAt (k : Kernel) (fd inode : Nat) (type : Int) {slot : Nat} (low : 2 ≤ slot)
    (high : slot < MAX_FILE_OPEN) (small : (k.host.contents inode).length ≤ OFF_MAX) :
    (k.withOpen slot fd inode type).OpenAt (BitVec.ofNat 32 slot) k.nextObject
      (OpenFile.new fd type) ⟨inode, 0, true, decide (type = 0)⟩ := by
  have number : (BitVec.ofNat 32 slot).toInt = slot := by
    unfold MAX_FILE_OPEN at high
    have same : (BitVec.ofNat 32 slot).toNat = slot := Nat.mod_eq_of_lt (by omega)
    rw [BitVec.toInt_eq_toNat_of_lt (by omega), same]
  constructor
  · rw [number]
    omega
  · rw [number, Int.toNat_natCast]
    exact Function.update_self _ _ _
  · exact Function.update_self _ _ _
  · exact ⟨Function.update_self _ _ _, rfl, fun zero => decide_eq_true zero, Nat.zero_le _, small⟩

/-- A file that was open before stays open. -/
theorem OpenAt.withOpen (isOpen : k.OpenAt other b g e) (free : k.openf slot = none)
    (fresh : k.objects k.nextObject = none) (unopened : k.host.fds fd = none) (inode : Nat)
    (type : Int) : (k.withOpen slot fd inode type).OpenAt other b g e ∧ b ≠ k.nextObject ∧
      g.file ≠ fd := by
  have slots : other.toInt.toNat ≠ slot := by
    intro same
    have pointer := isOpen.pointer
    rw [same, free] at pointer
    cases pointer
  have objects : b ≠ k.nextObject := by
    intro same
    have object := isOpen.object
    rw [same, fresh] at object
    cases object
  have files : g.file ≠ fd := by
    intro same
    have there := isOpen.ready.isOpen
    rw [same, unopened] at there
    cases there
  refine ⟨⟨isOpen.range, ?_, ?_, ?_, isOpen.ready.readable, isOpen.ready.writable,
    isOpen.ready.offset, isOpen.ready.small⟩, objects, files⟩
  · exact (Function.update_of_ne slots _ _).trans isOpen.pointer
  · exact (Function.update_of_ne objects _ _).trans isOpen.object
  · exact (Function.update_of_ne files _ _).trans isOpen.ready.isOpen

/-- A change of the host that no descriptor notices. -/
theorem OpenAt.withHost (isOpen : k.OpenAt id a f d) {host : Host} (fds : host.fds = k.host.fds)
    (small : (host.contents d.inode).length ≤ OFF_MAX) :
    Kernel.OpenAt { k with host } id a f d where
  range := isOpen.range
  pointer := isOpen.pointer
  object := isOpen.object
  ready := ⟨(congrFun fds _).trans isOpen.ready.isOpen, isOpen.ready.readable,
    isOpen.ready.writable, isOpen.ready.offset, small⟩

/-- `SysCreateFile` empties or makes the file and changes no descriptor. -/
theorem sysCreateFile_file (nonempty : name ≠ []) (unopened : k.host.fds fd = none) :
    ∃ inode host, k.sysCreateFile name (some fd) = .ok (0, { k with host }) ∧
      host.names = Function.update k.host.names name (some inode) ∧
      (k.host.names name = some inode ∨ inode = k.host.nextInode) ∧
      host.contents = Function.update k.host.contents inode [] ∧ host.fds = k.host.fds := by
  obtain ⟨inode, h, opened, named, which, contents, fds⟩ := Host.openFile_truncate name unopened
  have isOpen : (h.fds fd).isSome = true := by
    rw [fds, Function.update_self]
    rfl
  have closed := Close_eq_ok.mpr ⟨isOpen, rfl⟩
  have some_name : ¬ name.length = 0 := fun zero => nonempty (List.length_eq_zero_iff.mp zero)
  refine ⟨inode, { h with fds := Function.update h.fds fd none }, ?_, named, which, contents, ?_⟩
  · simp only [sysCreateFile, if_neg some_name, create, OpenForWrite, opened, Exec.ok_bind, closed]
  · simp only [fds]
    exact Host.fds_reopened unopened

/-- The kernel as the constructor of the file system leaves it: two slots at most are used,
the object of the first has an open descriptor. -/
structure Started (k : Kernel) : Prop where
  empty : ∀ i, 2 ≤ i → k.openf i = none
  console : ∀ a, k.openf 0 = some a → ∃ f, k.objects a = some f ∧ (k.host.fds f.file).isSome = true
  fresh : ∀ a, k.nextObject ≤ a → k.objects a = none

theorem boot_started {host : Host} {memory : UserMemory} {grant : Nat → Option Nat}
    (booted : Kernel.boot host memory grant = .ok k) : k.Started := by
  obtain ⟨sound, empty⟩ := Kernel.boot_sound booted
  refine ⟨empty, ?_, sound.fresh⟩
  intro a pointer
  have live := (sound.objects.marked_iff a).mpr ⟨⟨0, by decide⟩, by simp [pointer]⟩
  obtain ⟨f, object⟩ := Option.isSome_iff_exists.mp live
  obtain ⟨d, ready⟩ := sound.ready a f object
  exact ⟨f, object, by rw [ready.isOpen]; rfl⟩

theorem findFreeSlot_first (free : k.openf 2 = none) : k.findFreeSlot = some 2 := by
  unfold findFreeSlot
  rw [show List.range' 2 (MAX_FILE_OPEN - 2) = 2 :: List.range' 3 12 from rfl,
    List.find?_cons_of_pos (by rw [free]; rfl)]

theorem findFreeSlot_second (used : (k.openf 2).isSome = true) (free : k.openf 3 = none) :
    k.findFreeSlot = some 3 := by
  have taken : ¬ (k.openf 2).isNone = true := by
    rw [Option.isNone_iff_eq_none]
    exact Option.isSome_iff_ne_none.mp used
  unfold findFreeSlot
  rw [show List.range' 2 (MAX_FILE_OPEN - 2) = 2 :: 3 :: List.range' 4 11 from rfl,
    List.find?_cons_of_neg (by exact taken), List.find?_cons_of_pos (by rw [free]; rfl)]

theorem Started.withOpen_fresh (started : k.Started) (fd inode : Nat) (type : Int) :
    (k.withOpen 2 fd inode type).objects (k.nextObject + 1) = none :=
  (Function.update_of_ne (Nat.succ_ne_self _) _ _).trans (started.fresh _ (Nat.le_succ _))

theorem Started.withOpen_empty (started : k.Started) (fd inode : Nat) (type : Int) :
    (k.withOpen 2 fd inode type).openf 3 = none := by
  rw [withOpen_openf, Function.update_of_ne (by decide)]
  exact started.empty 3 (by decide)

/-- `Open` of a second file, next to one in the first slot. -/
theorem OpenAt.open_beside (isOpen : k.OpenAt 2 a f d) (empty : k.openf 3 = none)
    (fresh : k.objects k.nextObject = none) (file : type = 0 ∨ type = 1)
    (unopened : k.host.fds fd = none) (found : k.host.names name = some inode)
    (small : (k.host.contents inode).length ≤ OFF_MAX) :
    ∃ k' b g, k.sysOpen name type (some fd) = .ok (some (3 : Nat), k') ∧ k'.OpenAt 2 a f d ∧
      k'.OpenAt 3 b g ⟨inode, 0, true, decide (type = 0)⟩ ∧ a ≠ b ∧ f.file ≠ g.file ∧
      g.type = type ∧ k'.host.contents = k.host.contents ∧ k'.host.names = k.host.names := by
  have pointer : k.openf 2 = some a := isOpen.pointer
  have free := findFreeSlot_second (by rw [pointer]; rfl) empty
  obtain ⟨first, objects, files⟩ := isOpen.withOpen empty fresh unopened inode type
  exact ⟨_, _, _, sysOpen_existing free file unopened found small, first,
    withOpen_openAt k fd inode type (show 2 ≤ 3 by decide) (by decide) small, objects, files, rfl,
    rfl, rfl⟩

/-- `Open` of a file to write to and of another to read from. -/
theorem Started.open_both (started : k.Started) {source source2 : List Byte}
    {inode inode2 fd fd2 : Nat} (found : k.host.names source = some inode)
    (found2 : k.host.names source2 = some inode2) (different : inode2 ≠ inode)
    (small : (k.host.contents inode).length ≤ OFF_MAX)
    (small2 : (k.host.contents inode2).length ≤ OFF_MAX) (unopened : k.host.fds fd = none)
    (unopened2 : k.host.fds fd2 = none) (apart : fd2 ≠ fd) :
    ∃ k₁ k₂, k.sysOpen source 0 (some fd) = .ok (some (2 : Nat), k₁) ∧
      k₁.sysOpen source2 1 (some fd2) = .ok (some (3 : Nat), k₂) ∧
      k₂.Pair 3 2 ⟨inode2, 0, true, false⟩ ⟨inode, 0, true, true⟩ ∧
      k₂.host.contents = k.host.contents ∧ k₂.host.names = k.host.names := by
  have unopened' : (k.withOpen 2 fd inode 0).host.fds fd2 = none :=
    (Function.update_of_ne apart _ _).trans unopened2
  have first := withOpen_openAt k fd inode 0 (show 2 ≤ 2 by decide) (by decide) small
  obtain ⟨k₂, b, g, run, first', second, objects, files, reads, contents, names⟩ :=
    first.open_beside (started.withOpen_empty fd inode 0) (started.withOpen_fresh fd inode 0)
      (.inr rfl) unopened' found2 small2
  refine ⟨_, k₂, sysOpen_existing (findFreeSlot_first (started.empty 2 (by decide))) (.inl rfl)
    unopened found small, run, ⟨⟨b, g, _, _, second, first', objects.symm, files.symm, .inr reads,
    rfl⟩, different⟩, contents, names⟩

/-- The descriptor under the console's slot 0. -/
def consoleFile (k : Kernel) : Option Nat := ((k.openf 0).bind k.objects).map OpenFile.file

/-- `Close(0)`, which closes the console's input if it is open, and `Open` of another file. -/
theorem OpenAt.close_console_open (isOpen : k.OpenAt 2 a f d) (empty : k.openf 3 = none)
    (console : ∀ b, k.openf 0 = some b → ∃ g, k.objects b = some g ∧
      (k.host.fds g.file).isSome = true ∧ a ≠ b ∧ f.file ≠ g.file)
    (fresh : k.objects k.nextObject = none) (reads : f.type = 0 ∨ f.type = 1)
    (unopened : k.host.fds fd = none ∨ k.consoleFile = some fd)
    (found : k.host.names name = some inode) (different : d.inode ≠ inode)
    (small : (k.host.contents inode).length ≤ OFF_MAX) :
    ∃ r k₁ k₂, k.sysClose 0 = .ok (r, k₁) ∧ (r = 0 ∨ r = -1) ∧
      k₁.sysOpen name 0 (some fd) = .ok (some (3 : Nat), k₂) ∧
      k₂.Pair 2 3 d ⟨inode, 0, true, true⟩ ∧ k₂.host.contents = k.host.contents ∧
      k₂.host.names = k.host.names := by
  cases slot : k.openf 0 with
  | none =>
    have none_open : k.consoleFile = none := by
      unfold consoleFile
      rw [slot]
      rfl
    have unopened : k.host.fds fd = none := by
      rcases unopened with unopened | there
      · exact unopened
      · rw [none_open] at there
        cases there
    have closed : k.sysClose 0 = .ok (-1, k) := by
      unfold sysClose
      rw [if_pos (by decide), show (0 : Int).toNat = 0 from rfl, slot]
    obtain ⟨k₂, b, g, run, first, second, objects, files, writes, contents, names⟩ :=
      isOpen.open_beside empty fresh (.inl rfl) unopened found small
    exact ⟨-1, k, k₂, closed, .inr rfl, run, ⟨⟨a, f, b, g, first, second, objects, files, reads,
      writes⟩, different⟩, contents, names⟩
  | some b =>
    obtain ⟨g, object, live, objects, files⟩ := console b slot
    have closed := sysClose_slot (show 0 ≤ 14 by decide) slot object live
    have unopened' : (k.withClosed 0 b g).host.fds fd = none := by
      by_cases same : fd = g.file
      · rw [same]
        exact Function.update_self _ _ _
      · have kept : (k.withClosed 0 b g).host.fds fd = k.host.fds fd :=
          Function.update_of_ne same _ _
        rw [kept]
        apply unopened.resolve_right
        unfold consoleFile
        rw [slot, Option.bind_some, object]
        intro other
        exact same (Option.some.inj other).symm
    have fresh' : (k.withClosed 0 b g).objects k.nextObject = none := by
      by_cases same : k.nextObject = b
      · rw [same]
        exact Function.update_self _ _ _
      · exact (Function.update_of_ne same _ _).trans fresh
    have empty' : (k.withClosed 0 b g).openf 3 = none := by
      rw [withClosed_openf, Function.update_of_ne (by decide)]
      exact empty
    obtain ⟨k₂, b', g', run, first, second, objects', files', writes, contents, names⟩ :=
      (isOpen.withClosed (by decide) objects files).open_beside empty' fresh' (.inl rfl) unopened'
        found small
    exact ⟨0, _, k₂, closed, .inl rfl, run, ⟨⟨a, f, b', g', first, second, objects', files', reads,
      writes⟩, different⟩, contents, names⟩

theorem Started.withOpen_slot (started : k.Started) (fd inode : Nat) (type : Int) {b : Nat}
    {g : OpenFile} (object : k.objects b = some g) :
    k.nextObject ≠ b ∧ (k.withOpen 2 fd inode type).objects b = some g := by
  have apart : k.nextObject ≠ b := by
    intro same
    rw [← same, started.fresh _ le_rfl] at object
    cases object
  exact ⟨apart, (Function.update_of_ne apart.symm _ _).trans object⟩

/-- The console's slot after `Open` of a file. -/
theorem Started.withOpen_console (started : k.Started) (unopened : k.host.fds fd = none)
    (inode : Nat) (type : Int) {b : Nat}
    (pointer : (k.withOpen 2 fd inode type).openf 0 = some b) :
    ∃ g, (k.withOpen 2 fd inode type).objects b = some g ∧
      ((k.withOpen 2 fd inode type).host.fds g.file).isSome = true ∧ k.nextObject ≠ b ∧
      fd ≠ g.file := by
  rw [withOpen_openf, Function.update_of_ne (by decide)] at pointer
  obtain ⟨g, object, live⟩ := started.console b pointer
  have files : g.file ≠ fd := by
    intro same
    rw [same, unopened] at live
    cases live
  obtain ⟨apart, kept⟩ := started.withOpen_slot fd inode type object
  have there : (k.withOpen 2 fd inode type).host.fds g.file = k.host.fds g.file :=
    Function.update_of_ne files _ _
  exact ⟨g, kept, by rw [there]; exact live, apart, files.symm⟩

theorem Started.withOpen_consoleFile (started : k.Started) (fd inode : Nat) (type : Int) :
    (k.withOpen 2 fd inode type).consoleFile = k.consoleFile := by
  unfold consoleFile
  rw [withOpen_openf, Function.update_of_ne (by decide)]
  cases slot : k.openf 0 with
  | none => rfl
  | some b =>
    obtain ⟨g, object, -⟩ := started.console b slot
    rw [Option.bind_some, Option.bind_some, (started.withOpen_slot fd inode type object).2, object]

/-- `Open` of a file to read from, `Create`, `Close(0)` and `Open` of a file to write to. -/
theorem Started.open_created (started : k.Started) {source dest : List Byte}
    {inode fd fd2 fd3 : Nat} (found : k.host.names source = some inode)
    (old : inode < k.host.nextInode) (different : k.host.names dest ≠ some inode)
    (nonempty : dest ≠ []) (small : (k.host.contents inode).length ≤ OFF_MAX)
    (unopened : k.host.fds fd = none) (unopened2 : k.host.fds fd2 = none) (apart2 : fd2 ≠ fd)
    (unopened3 : k.host.fds fd3 = none ∨ k.consoleFile = some fd3) (apart3 : fd3 ≠ fd) :
    ∃ k₁ k₂ r k₃ k₄ inode2, k.sysOpen source 1 (some fd) = .ok (some (2 : Nat), k₁) ∧
      k₁.sysCreateFile dest (some fd2) = .ok (0, k₂) ∧
      k₂.sysClose 0 = .ok (r, k₃) ∧ (r = 0 ∨ r = -1) ∧
      k₃.sysOpen dest 0 (some fd3) = .ok (some (3 : Nat), k₄) ∧
      k₄.Pair 2 3 ⟨inode, 0, true, false⟩ ⟨inode2, 0, true, true⟩ ∧
      k₄.host.contents = Function.update k.host.contents inode2 [] ∧
      k₄.host.names = Function.update k.host.names dest (some inode2) := by
  have opened := sysOpen_existing (findFreeSlot_first (started.empty 2 (by decide))) (.inr rfl)
    unopened found small
  have first := withOpen_openAt k fd inode 1 (show 2 ≤ 2 by decide) (by decide) small
  have unopened2' : (k.withOpen 2 fd inode 1).host.fds fd2 = none :=
    (Function.update_of_ne apart2 _ _).trans unopened2
  obtain ⟨inode2, host, created, named, which, contents, fds⟩ :=
    sysCreateFile_file nonempty unopened2'
  have other : inode ≠ inode2 := by
    rintro rfl
    rcases which with same | new
    · exact different same
    · exact absurd new (Nat.ne_of_lt old)
  have same : host.contents inode = k.host.contents inode := by
    rw [contents, Function.update_of_ne other]
    rfl
  have first' := first.withHost fds (by rw [same]; exact small)
  have console : ∀ b, (k.withOpen 2 fd inode 1).openf 0 = some b →
      ∃ g, (k.withOpen 2 fd inode 1).objects b = some g ∧ (host.fds g.file).isSome = true ∧
        k.nextObject ≠ b ∧ fd ≠ g.file := by
    intro b pointer
    rw [fds]
    exact started.withOpen_console unopened inode 1 pointer
  have unopened3' : host.fds fd3 = none ∨
      (k.withOpen 2 fd inode 1).consoleFile = some fd3 := by
    have there : (k.withOpen 2 fd inode 1).host.fds fd3 = k.host.fds fd3 :=
      Function.update_of_ne apart3 _ _
    rw [fds, there, started.withOpen_consoleFile]
    exact unopened3
  have small2 : (host.contents inode2).length ≤ OFF_MAX := by
    rw [contents, Function.update_self]
    exact Nat.zero_le _
  obtain ⟨r, k₃, k₄, closed, result, run, pair, contents', names⟩ :=
    first'.close_console_open (started.withOpen_empty fd inode 1) console
      (started.withOpen_fresh fd inode 1) (.inr rfl) unopened3'
      (by rw [named, Function.update_self]) other small2
  refine ⟨_, _, r, k₃, k₄, inode2, opened, created, closed, result, run, pair, ?_, ?_⟩
  · rw [contents']
    exact contents
  · rw [names]
    exact named

end Opening

end Kernel

end NachOS.Stub
