import NachOS.Filesys.FlatFile
import NachOS.Filesys.Runs

/-!
# Consistency of the disk and confinement of writes

The two properties are stated about the disk alone, read the way the program reads
it: the headers of the free map and of the directory are at sectors 0 and 1.

* `disk_consistent`: the free map marks exactly the sectors in use, no sector is
  in use twice, and every header has one sector for each `SectorSize` bytes begun;
* `write_confined`: a write through a handle changes no other file and no sector
  with the free map, the directory or a header.

Both hold in the runs whose writes start at positions that are not negative:
`WriteAt` checks the end of a request only, and looks up the entry -1 of the
header for the position -128. The second one also needs handles whose file is not
removed: `Remove` frees the sectors at once, while the handle goes on with its copy
of the header.
-/
namespace NachOS.Filesys
open NachOS.Lib NachOS.Library

namespace Disk

def header (disk : Disk) (sector : Nat) : FileHeader := ⟨disk sector⟩

def freeMap (disk : Disk) : Bitmap := ⟨NumSectors, (disk.header FreeMapSector).byteAt disk⟩

def directory (disk : Disk) : Directory :=
  ⟨NumDirEntries, (disk.header DirectorySector).byteAt disk⟩

def fileSector (disk : Disk) (i : Nat) : Nat := (disk.directory.sector i).toNat

def fileHeader (disk : Disk) (i : Nat) : FileHeader := disk.header (disk.fileSector i)

/-- The bytes of the file in entry `i` of the directory. -/
def fileContents (disk : Disk) (i : Nat) : List Byte :=
  OpenFile.contents (disk.fileHeader i) disk

def systemSectors (disk : Disk) : List Nat :=
  FreeMapSector :: DirectorySector ::
    ((disk.header FreeMapSector).sectors ++ (disk.header DirectorySector).sectors)

def entrySectors (disk : Disk) (i : Nat) : List Nat :=
  if disk.directory.inUse i then disk.fileSector i :: (disk.fileHeader i).sectors else []

/-- All sectors that something on the disk refers to. -/
def usedSectors (disk : Disk) : List Nat :=
  disk.systemSectors ++ (List.range NumDirEntries).flatMap disk.entrySectors

structure Consistent (disk : Disk) : Prop where
  marked : ∀ x, x < NumSectors ∧ disk.freeMap.bit x = true ↔ x ∈ disk.usedSectors
  distinct : disk.usedSectors.Nodup
  headers : ∀ i < NumDirEntries, disk.directory.inUse i = true →
    (disk.fileHeader i).numSectors = ((disk.fileHeader i).numBytes + (SectorSize - 1)) / SectorSize ∧
      (disk.fileHeader i).numSectors ≤ NumDirect

/-- Sector `x` holds the free map, the directory or a file header. -/
def Metadata (disk : Disk) (x : Nat) : Prop :=
  x ∈ disk.systemSectors ∨ ∃ i < NumDirEntries, disk.directory.inUse i = true ∧ x = disk.fileSector i

/-- Nothing changes but the contents of the file with its header at `target`, or
nothing at all. -/
structure Confined (disk disk' : Disk) (target : Option Nat) : Prop where
  files : ∀ i < NumDirEntries, disk.directory.inUse i = true → target ≠ some (disk.fileSector i) →
    disk'.directory.inUse i = true ∧ disk'.fileContents i = disk.fileContents i
  metadata : ∀ x, disk.Metadata x → disk' x = disk x

end Disk

theorem FileHeader.Same.byteAt {h h' : FileHeader} (same : h.Same h') (v : h.Valid) {disk : Disk}
    {a : Nat} (ha : (a : Int) < h.numBytes) : h.byteAt disk a = h'.byteAt disk a := by
  have direct := v.direct
  have sector := v.sector_of_byte ha
  unfold FileHeader.byteAt sectorAt
  rw [same.entry (by omega)]

namespace FsInvariant
open FileSystem

variable {low : Int} {s s' : FileSystem}

theorem disk_directory (inv : FsInvariant low s) {i : Nat} (hi : i < NumDirEntries) :
    s.disk.directory.inUse i = s.directory.inUse i ∧
      s.disk.directory.sector i = s.directory.sector i := by
  have valid := inv.dirOnDisk.symm.valid inv.system.dir
  have bytes : ∀ a < EntrySize * s.directory.tableSize,
      s.disk.directory.table a = s.directory.table a := by
    intro a ha
    apply inv.dirOnDisk.byteAt valid
    rw [inv.dirOnDisk.numBytes, inv.system.dirLength]
    unfold DirectoryFileSize
    change a < EntrySize * NumDirEntries at ha
    omega
  exact ⟨Directory.inUse_congr bytes hi, Directory.sector_congr bytes hi⟩

theorem disk_fileSector (inv : FsInvariant low s) {i : Nat} (hi : i < NumDirEntries) :
    s.disk.fileSector i = s.fileSector i :=
  congrArg Int.toNat (inv.disk_directory hi).2

theorem disk_fileHeader (inv : FsInvariant low s) {i : Nat} (hi : i < NumDirEntries) :
    s.disk.fileHeader i = s.fileHeader i := by
  unfold Disk.fileHeader
  rw [inv.disk_fileSector hi]
  rfl

theorem disk_freeMap (inv : FsInvariant low s) {x : Nat} (hx : x < NumSectors) :
    s.disk.freeMap.bit x = s.freeMap.bit x := by
  have valid := inv.mapOnDisk.symm.valid inv.system.map
  apply Bitmap.bit_congr
  intro a from_ until_
  apply inv.mapOnDisk.byteAt valid
  rw [inv.mapOnDisk.numBytes, inv.system.mapLength]
  unfold Bitmap.wordOf BitsInWord at *
  unfold FreeMapFileSize NumSectors at *
  omega

theorem disk_systemSectors (inv : FsInvariant low s) :
    s.disk.systemSectors = s.owned .system := by
  have map := inv.mapOnDisk.symm.valid inv.system.map
  have dir := inv.dirOnDisk.symm.valid inv.system.dir
  have mapSectors := inv.mapOnDisk.sectors map.direct
  have dirSectors := inv.dirOnDisk.sectors dir.direct
  unfold Disk.systemSectors owned
  rw [← mapSectors, ← dirSectors]
  rfl

theorem disk_entrySectors (inv : FsInvariant low s) (i : Fin NumDirEntries) :
    s.disk.entrySectors i = s.owned (.entry i) := by
  unfold Disk.entrySectors owned
  rw [(inv.disk_directory i.isLt).1, inv.disk_fileSector i.isLt, inv.disk_fileHeader i.isLt]

theorem mem_usedSectors (inv : FsInvariant low s) {x : Nat} :
    x ∈ s.disk.usedSectors ↔ ∃ o, x ∈ s.owned o := by
  unfold Disk.usedSectors
  rw [List.mem_append, List.mem_flatMap, inv.disk_systemSectors]
  constructor
  · rintro (system | ⟨i, hi, entry⟩)
    · exact ⟨.system, system⟩
    · have range := List.mem_range.mp hi
      exact ⟨.entry ⟨i, range⟩, inv.disk_entrySectors ⟨i, range⟩ ▸ entry⟩
  · rintro ⟨o, member⟩
    cases o with
    | system => exact .inl member
    | entry i =>
      exact .inr ⟨i, List.mem_range.mpr i.isLt, inv.disk_entrySectors i ▸ member⟩

theorem usedSectors_nodup (inv : FsInvariant low s) : s.disk.usedSectors.Nodup := by
  unfold Disk.usedSectors
  rw [inv.disk_systemSectors, List.nodup_append, List.nodup_flatMap]
  refine ⟨inv.exact.nodup .system, ⟨?_, ?_⟩, ?_⟩
  · intro i hi
    have range := List.mem_range.mp hi
    rw [inv.disk_entrySectors ⟨i, range⟩]
    exact inv.exact.nodup _
  · apply List.Pairwise.imp_of_mem _ (List.nodup_range (n := NumDirEntries))
    intro i j hi hj apart x first second
    rw [inv.disk_entrySectors ⟨i, List.mem_range.mp hi⟩] at first
    rw [inv.disk_entrySectors ⟨j, List.mem_range.mp hj⟩] at second
    have same := inv.exact.disjoint _ _ _ first second
    cases same
    exact apart rfl
  · intro x system y entry same
    obtain ⟨i, hi, member⟩ := List.mem_flatMap.mp entry
    rw [← same, inv.disk_entrySectors ⟨i, List.mem_range.mp hi⟩] at member
    have := inv.exact.disjoint _ _ _ system member
    cases this

theorem consistent (inv : FsInvariant 0 s) : s.disk.Consistent where
  marked := by
    intro x
    rw [inv.mem_usedSectors, ← inv.exact.marked_iff]
    exact and_congr_right fun hx => by rw [inv.disk_freeMap hx]
  distinct := inv.usedSectors_nodup
  headers := by
    intro i hi used
    rw [(inv.disk_directory hi).1] at used
    obtain ⟨_, valid, nonneg⟩ := inv.files i hi used
    rw [inv.disk_fileHeader hi, ← divRoundUp_nonneg nonneg]
    exact ⟨valid.count, valid.direct⟩

end FsInvariant

/-- The header sector of the file a handle was opened on, while there is one. -/
def Handle.target (h : Handle) : Option Nat := if h.removed then none else some h.sector

theorem Handle.target_ne {h : Handle} {sector : Nat} (other : h.target ≠ some sector) :
    ¬ (h.removed = false ∧ sector = h.sector) := by
  intro ⟨live, same⟩
  apply other
  unfold Handle.target
  rw [live, same]
  rfl

namespace FileSystem

variable {low : Int} {s s' : FileSystem} {h : Handle}

/-- What `Written` says of the disk. -/
theorem Written.confined (w : s.Written h s') (inv : FsInvariant low s) (sound : s.Sound h)
    (writable : s.Writable h) : s.disk.Confined s'.disk h.target := by
  have inv' := w.invariant inv sound writable
  constructor
  · intro i hi used other
    rw [inv.disk_fileSector hi] at other
    rw [(inv.disk_directory hi).1] at used
    have kept := w.keeps inv sound writable hi
    have valid := (inv.files i hi used).2.1
    refine ⟨by rw [(inv'.disk_directory hi).1, kept.inUse, used], ?_⟩
    unfold Disk.fileContents
    rw [inv.disk_fileHeader hi, inv'.disk_fileHeader hi, kept.fileHeader used]
    apply OpenFile.contents_congr valid
    exact fun x hx => w.data inv sound writable hi used (Handle.target_ne other) hx
  · rintro x (system | ⟨i, hi, used, rfl⟩)
    · rw [inv.disk_systemSectors] at system
      exact w.system inv sound writable system
    · rw [(inv.disk_directory hi).1] at used
      rw [inv.disk_fileSector hi]
      exact w.header inv sound writable hi used

end FileSystem

section Blank

/-- Memory and sectors full of zeros. -/
def blank : Buf := fun _ => 0

def ones : Buf := fun _ => 1

/-- The state after `FileSystem(TRUE)` on a blank disk. -/
def blankSystem : Option FileSystem :=
  (FileSystem.new (fun _ => blank) (fun _ _ => blank)).toOption

theorem blankSystem_init {s : FileSystem} (h : blankSystem = some s) : fsMachine.init s := by
  unfold blankSystem at h
  cases run : FileSystem.new (fun _ => blank) (fun _ _ => blank) with
  | error e =>
    rw [run] at h
    cases h
  | ok s' =>
    rw [run] at h
    cases h
    exact ⟨_, _, run⟩

def createBlank (name : Char) (initialSize : CInt) : FsEvent :=
  .create (fun _ => blank) (cString [name]) initialSize

def openBlank (name : Char) : FsEvent := .openName (fun _ => blank) (cString [name])

/-- A file of two sectors is created and opened. -/
def twoSectorRun : Option FileSystem :=
  blankSystem.bind (fsMachine.run [createBlank 'a' 256, openBlank 'a'])

theorem twoSectorRun_reachable {ok : FsEvent → FileSystem → Prop} {s : FileSystem}
    (create : ∀ s, ok (createBlank 'a' 256) s) (openName : ∀ s, ok (openBlank 'a') s)
    (h : twoSectorRun = some s) : fsMachine.ReachableUnder ok s := by
  obtain ⟨s₀, start, run⟩ := Option.bind_eq_some_iff.mp h
  apply (Machine.ReachableUnder.init (blankSystem_init start)).run _ _ run
  intro e he s
  simp only [List.mem_cons, List.not_mem_nil, or_false] at he
  rcases he with rfl | rfl
  · exact create s
  · exact openName s

/-- A write across the boundary of the two sectors is made; one before the file
clears the first bit of the free map. -/
theorem twoSectorRun_writes : (twoSectorRun.bind fun s => (s.handles 0).bind fun h =>
    (fsMachine.next (.writeAt 0 blank blank 128 (-128)) s).map fun s' =>
      (h.removed, (fsMachine.next (.writeAt 0 blank ones 60 100) s).isSome,
        s'.disk.freeMap.bit 0)) = some (false, true, false) := by
  decide +kernel

/-- The handle of the run is of a file that exists. -/
theorem twoSectorRun_live : ∃ s s' h, twoSectorRun = some s ∧ s.handles 0 = some h ∧
    (∀ h', s.handles 0 = some h' → h'.removed = false) ∧
    fsMachine.next (.writeAt 0 blank ones 60 100) s = some s' := by
  obtain ⟨s, run, opened⟩ := Option.bind_eq_some_iff.mp twoSectorRun_writes
  obtain ⟨h, open_, write⟩ := Option.bind_eq_some_iff.mp opened
  obtain ⟨_, _, facts⟩ := Option.map_eq_some_iff.mp write
  simp only [Prod.mk.injEq] at facts
  obtain ⟨removed, writes, _⟩ := facts
  obtain ⟨s', step⟩ := Option.isSome_iff_exists.mp writes
  refine ⟨s, s', h, run, open_, fun h' same => ?_, step⟩
  rw [open_] at same
  cases same
  exact removed

/-- A file is opened and removed; the next file gets its sectors. -/
def staleRun : Option FileSystem :=
  blankSystem.bind (fsMachine.run [createBlank 'a' 128, openBlank 'a',
    .remove (fun _ => blank) (cString ['a']), createBlank 'b' 128])

/-- A write through the handle of the removed file changes the first byte of the
new one. -/
theorem staleRun_write : (staleRun.bind fun s => (s.handles 0).bind fun h =>
    (fsMachine.next (.writeAt 0 blank ones 128 0) s).map fun s' =>
      (h.target, s.disk.directory.inUse 2, (s.disk.fileContents 2).head?,
        (s'.disk.fileContents 2).head?)) = some (none, true, some 0, some 1) := by
  decide +kernel

end Blank

/-- A write through a handle, in a careful run, changes no file but its own and no
sector of the file system's own data. -/
theorem write_confined {s s' : FileSystem} {e : FsEvent} {k : Nat} {h : Handle}
    (reachable : fsMachine.ReachableUnder (FsEvent.Careful (-2147483648)) s)
    (careful : e.Careful (-2147483648) s) (writes : e.writesThrough = some k)
    (open_ : s.handles k = some h) (step : fsMachine.next e s = some s') :
    s.disk.Confined s'.disk h.target := by
  have inv := fsInvariant_of_reachable (by decide) reachable
  obtain ⟨written, writable⟩ := FileSystem.next_written inv writes open_ careful step
  exact written.confined inv (inv.handles k h open_) writable

theorem write_confined_two_sectors :
    ∃ s s' h, twoSectorRun = some s ∧ s.handles 0 = some h ∧
      fsMachine.next (.writeAt 0 blank ones 60 100) s = some s' ∧
      s.disk.Confined s'.disk h.target := by
  obtain ⟨s, s', h, run, open_, live, step⟩ := twoSectorRun_live
  refine ⟨s, s', h, run, open_, step, ?_⟩
  apply write_confined (twoSectorRun_reachable _ _ run) _ rfl open_ step
  · exact fun _ => ⟨by decide, .inl (by decide)⟩
  · exact fun _ => trivial
  · exact ⟨fun h' open' => .inl (live h' open'), fun _ => by decide⟩

/-- The handle of a removed file writes to another file. -/
theorem write_not_confined :
    ¬ ∀ s s' e k h, fsMachine.Reachable s → FsEvent.writesThrough e = some k →
      s.handles k = some h → fsMachine.next e s = some s' → s.disk.Confined s'.disk h.target := by
  intro confined
  obtain ⟨s, run, opened⟩ := Option.bind_eq_some_iff.mp staleRun_write
  obtain ⟨h, open_, write⟩ := Option.bind_eq_some_iff.mp opened
  obtain ⟨s', step, facts⟩ := Option.map_eq_some_iff.mp write
  simp only [Prod.mk.injEq] at facts
  obtain ⟨target, used, before, after⟩ := facts
  obtain ⟨s₀, start, events⟩ := Option.bind_eq_some_iff.mp run
  have reachable := (Machine.Reachable.init (blankSystem_init start)).run _ events
  have same := (confined s s' _ 0 h reachable rfl open_ step).files 2 (by decide) used (by
    rw [target]
    exact (Option.some_ne_none _).symm)
  rw [same.2, before] at after
  cases after

/-- The events of a run of the file system that keeps to the sizes a header can
hold and to handles of files that still exist. -/
def FsEvent.Ordinary : FsEvent → FileSystem → Prop
  | .create _ _ initialSize, _ => 0 ≤ initialSize.toInt ∧ initialSize.toInt ≤ MaxFileSize
  | .writeAt k _ _ _ _, s => ∀ h, s.handles k = some h → h.removed = false
  | .write k _ _ _, s => ∀ h, s.handles k = some h → h.removed = false
  | _, _ => True

/-- No request of the event starts before the beginning of its file. -/
def FsEvent.StartsInside : FsEvent → Prop
  | .writeAt _ _ _ numBytes position => 0 < numBytes.toInt → 0 ≤ position.toInt
  | _ => True

theorem FsEvent.careful_of_ordinary {e : FsEvent} {s : FileSystem} (ordinary : e.Ordinary s)
    (inside : e.StartsInside) : e.Careful 0 s := by
  cases e with
  | create heap name initialSize => exact ⟨ordinary.1, .inl ordinary.2⟩
  | writeAt k heap data numBytes position => exact ⟨fun h open_ => .inl (ordinary h open_), inside⟩
  | write k heap data numBytes => exact fun h open_ => .inl (ordinary h open_)
  | _ => trivial

/-- The disk is consistent in every state of every run whose requests start inside
their files. -/
theorem disk_consistent {s : FileSystem}
    (reachable : fsMachine.ReachableUnder (fun e s => e.Ordinary s ∧ e.StartsInside) s) :
    s.disk.Consistent := by
  have careful : fsMachine.ReachableUnder (FsEvent.Careful 0) s :=
    reachable.mono fun e s ⟨ordinary, inside⟩ => FsEvent.careful_of_ordinary ordinary inside
  exact (fsInvariant_of_reachable (by decide) careful).consistent

theorem disk_consistent_two_sectors :
    ∃ s s', twoSectorRun = some s ∧ fsMachine.next (.writeAt 0 blank ones 60 100) s = some s' ∧
      s'.disk.Consistent := by
  obtain ⟨s, s', h, run, _, live, step⟩ := twoSectorRun_live
  refine ⟨s, s', run, step, disk_consistent ?_⟩
  apply Machine.ReachableUnder.step (twoSectorRun_reachable _ _ run) _ step
  · exact fun _ => ⟨show (0 : Int) ≤ (256 : CInt).toInt ∧ _ by decide, trivial⟩
  · exact fun _ => ⟨trivial, trivial⟩
  · exact ⟨live, fun _ => by decide⟩

/-- With the position -128 the sector of the free map is overwritten: `numSectors`
is taken for the first sector number. -/
theorem disk_not_consistent :
    ¬ ∀ s, fsMachine.ReachableUnder FsEvent.Ordinary s → s.disk.Consistent := by
  intro consistent
  obtain ⟨s, run, opened⟩ := Option.bind_eq_some_iff.mp twoSectorRun_writes
  obtain ⟨h, open_, write⟩ := Option.bind_eq_some_iff.mp opened
  obtain ⟨s', step, facts⟩ := Option.map_eq_some_iff.mp write
  simp only [Prod.mk.injEq] at facts
  obtain ⟨removed, _, unmarked⟩ := facts
  have before : fsMachine.ReachableUnder FsEvent.Ordinary s := twoSectorRun_reachable
    (fun _ => show (0 : Int) ≤ (256 : CInt).toInt ∧ _ by decide) (fun _ => trivial) run
  have live : FsEvent.Ordinary (.writeAt 0 blank blank 128 (-128)) s := by
    intro h' same
    rw [open_] at same
    cases same
    exact removed
  have marked := ((consistent s' (before.step live step)).marked 0).mpr List.mem_cons_self
  rw [marked.2] at unmarked
  cases unmarked

end NachOS.Filesys
