import NachOS.Filesys.FileSystem
import NachOS.Lib.Ownership

/-!
# The allocation invariant of the disk file system

The free map, the directory and the file headers are kept in different sectors.
The invariant ties them together: the map marks exactly the sectors that the
system files and the files in the directory own, and nothing is owned twice. It
is stated with the ownership library; the operations extend or release the
sectors of one owner.

The invariant holds in every state of every run whose writes go through handles
of files that still exist, at positions that are not negative. The parameter
`low` is a lower bound for the sizes with which files are created; `Create` also
accepts negative sizes, and such a file has no data sectors.
-/
namespace NachOS.Filesys
open NachOS.Lib NachOS.Library

/-- Who owns sectors: the file system itself, or a directory entry. -/
inductive Owner where
  | system
  | entry (i : Fin NumDirEntries)
  deriving DecidableEq

namespace FileSystem

def mapHdr (s : FileSystem) : FileHeader := s.freeMapFile.hdr

def dirHdr (s : FileSystem) : FileHeader := s.directoryFile.hdr

/-- The directory as it is on the disk. -/
def directory (s : FileSystem) : Directory := ⟨NumDirEntries, s.dirHdr.byteAt s.disk⟩

/-- The free map as it is on the disk. -/
def freeMap (s : FileSystem) : Bitmap := ⟨NumSectors, s.mapHdr.byteAt s.disk⟩

def header (s : FileSystem) (sector : Nat) : FileHeader := ⟨s.disk sector⟩

def fileSector (s : FileSystem) (i : Nat) : Nat := (s.directory.sector i).toNat

def fileHeader (s : FileSystem) (i : Nat) : FileHeader := s.header (s.fileSector i)

def owned (s : FileSystem) : Owner → List Nat
  | .system => FreeMapSector :: DirectorySector :: (s.mapHdr.sectors ++ s.dirHdr.sectors)
  | .entry i =>
    if s.directory.inUse i then s.fileSector i :: (s.fileHeader i).sectors else []

def Marked (s : FileSystem) (sector : Nat) : Prop :=
  sector < NumSectors ∧ s.freeMap.bit sector = true

/-- What is fixed once the disk is formatted: the two system files. -/
structure SystemFiles (s : FileSystem) : Prop where
  map : s.mapHdr.Valid
  mapLength : s.mapHdr.numBytes = FreeMapFileSize
  dir : s.dirHdr.Valid
  dirLength : s.dirHdr.numBytes = DirectoryFileSize
  nodup : (s.owned .system).Nodup

/-- What holds of the `OpenFile` objects: the cached header is one of this file
system and, unless the file was removed, still the header on the disk. -/
structure Sound (s : FileSystem) (h : Handle) : Prop where
  valid : h.file.hdr.Valid
  positioned : 0 ≤ h.file.seekPosition ∧ h.file.seekPosition ≤ 2147483647
  live : h.removed = false → ∃ i < NumDirEntries, s.directory.inUse i = true ∧
    s.fileSector i = h.sector ∧ (s.fileHeader i).Same h.file.hdr

end FileSystem

/-- The allocation invariant. -/
structure FsInvariant (low : Int) (s : FileSystem) : Prop where
  system : s.SystemFiles
  mapOnDisk : (s.header FreeMapSector).Same s.mapHdr
  dirOnDisk : (s.header DirectorySector).Same s.dirHdr
  files : ∀ i < NumDirEntries, s.directory.inUse i = true →
    Disk.ValidSector (s.directory.sector i) ∧ (s.fileHeader i).Valid ∧
      low ≤ (s.fileHeader i).numBytes
  exact : Exact s.Marked s.owned
  handles : ∀ k h, s.handles k = some h → s.Sound h

namespace FileSystem

variable {s : FileSystem}

namespace SystemFiles

theorem parts (sys : s.SystemFiles) :
    FreeMapSector ∉ s.mapHdr.sectors ∧ FreeMapSector ∉ s.dirHdr.sectors ∧
    DirectorySector ∉ s.mapHdr.sectors ∧ DirectorySector ∉ s.dirHdr.sectors ∧
    ∀ x ∈ s.mapHdr.sectors, x ∉ s.dirHdr.sectors := by
  have nodup := sys.nodup
  simp only [owned, List.nodup_cons, List.mem_cons, List.mem_append, not_or] at nodup
  obtain ⟨⟨_, a, b⟩, ⟨c, d⟩, rest⟩ := nodup
  rw [List.nodup_append] at rest
  exact ⟨a, b, c, d, fun x hx hx' => rest.2.2 x hx x hx' rfl⟩

/-- `new Directory` and `FetchFrom` give the directory on the disk. -/
theorem fetchDirectory (sys : s.SystemFiles) (heap : Buf) :
    ∃ d, s.fetchDirectory heap = .ok d ∧ d.tableSize = NumDirEntries ∧
      ∀ a < EntrySize * NumDirEntries, d.table a = s.directory.table a := by
  have length := sys.dirLength
  obtain ⟨table, run, bytes⟩ := OpenFile.readInto_whole s.disk sys.dir
    (by rw [length]; decide) (Directory.new heap NumDirEntries).table
  refine ⟨⟨NumDirEntries, table⟩, ?_, rfl, fun a ha => bytes a ?_⟩
  · rw [length] at run
    unfold FileSystem.fetchDirectory Directory.fetchFrom
    have size : ((Directory.new heap NumDirEntries).tableSize * EntrySize : Nat) =
        DirectoryFileSize := rfl
    rw [size]
    change OpenFile.readInto s.disk s.directoryFile.hdr _ 0 _ 0 = _ at run
    rw [run]
    rfl
  · rw [length]
    unfold DirectoryFileSize
    omega

theorem fetchMap (sys : s.SystemFiles) :
    ∃ m, PersistentBitmap.fetchFrom s.disk s.freeMapFile NumSectors = .ok m ∧
      m.numBits = NumSectors ∧ ∀ i < NumSectors, m.bit i = s.freeMap.bit i := by
  have length := sys.mapLength
  obtain ⟨map, run, bytes⟩ := OpenFile.readInto_whole s.disk sys.map
    (by rw [length]; decide) (Bitmap.new NumSectors).map
  refine ⟨⟨NumSectors, map⟩, ?_, rfl, fun i hi => ?_⟩
  · rw [length] at run
    unfold PersistentBitmap.fetchFrom
    have size : (4 * PersistentBitmap.numWords NumSectors : Nat) = FreeMapFileSize := by decide
    change OpenFile.readInto s.disk s.freeMapFile.hdr _ 0 _ 0 = _ at run
    simp only [size, run, Exec.ok_bind]
    rfl
  · apply Bitmap.bit_congr
    intro a low high
    refine bytes a ?_
    rw [length]
    unfold Bitmap.wordOf BitsInWord at *
    unfold FreeMapFileSize NumSectors at *
    omega

theorem writeDirectory (sys : s.SystemFiles) (d : Directory) (size : d.tableSize = NumDirEntries)
    (disk : Disk) (heap : Buf) :
    ∃ disk', d.writeBack disk s.directoryFile heap = .ok disk' ∧
      (∀ x, x ∉ s.dirHdr.sectors → disk' x = disk x) ∧
      ∀ a < EntrySize * NumDirEntries, s.dirHdr.byteAt disk' a = d.table a := by
  have length := sys.dirLength
  obtain ⟨count, disk', run, frame, bytes⟩ := OpenFile.writeAt_whole disk sys.dir
    (by rw [length]; decide) heap d.table
  refine ⟨disk', ?_, frame, fun a ha => bytes a ?_⟩
  · rw [length] at run
    unfold Directory.writeBack
    have bytes : (d.tableSize * EntrySize : Nat) = DirectoryFileSize := by
      rw [size]
      rfl
    change OpenFile.writeAt disk s.directoryFile.hdr heap d.table _ 0 = _ at run
    rw [bytes, run]
    rfl
  · rw [length]
    unfold DirectoryFileSize
    omega

theorem writeMap (sys : s.SystemFiles) (m : Bitmap) (size : m.numBits = NumSectors)
    (disk : Disk) (heap : Buf) :
    ∃ disk', PersistentBitmap.writeBack m disk s.freeMapFile heap = .ok disk' ∧
      (∀ x, x ∉ s.mapHdr.sectors → disk' x = disk x) ∧
      ∀ a < FreeMapFileSize, s.mapHdr.byteAt disk' a = m.map a := by
  have length := sys.mapLength
  obtain ⟨count, disk', run, frame, bytes⟩ := OpenFile.writeAt_whole disk sys.map
    (by rw [length]; decide) heap m.map
  refine ⟨disk', ?_, frame, fun a ha => bytes a (by rw [length]; omega)⟩
  rw [length] at run
  unfold PersistentBitmap.writeBack
  have words : (4 * PersistentBitmap.numWords m.numBits : Nat) = FreeMapFileSize := by
    rw [size]
    decide
  change OpenFile.writeAt disk s.freeMapFile.hdr heap m.map _ 0 = _ at run
  rw [words, run]
  rfl

end SystemFiles

/-- The directory `d` and the free map `m` have been written to their files. -/
structure Flushed (s : FileSystem) (d : Directory) (m : Bitmap) (disk disk' : Disk) : Prop where
  frame : ∀ x, x ∉ s.mapHdr.sectors → x ∉ s.dirHdr.sectors → disk' x = disk x
  table : ∀ a < EntrySize * NumDirEntries, s.dirHdr.byteAt disk' a = d.table a
  map : ∀ a < FreeMapFileSize, s.mapHdr.byteAt disk' a = m.map a

namespace SystemFiles

variable {d : Directory} {m : Bitmap}

/-- `Create` flushes the directory first. -/
theorem flush_directory_map (sys : s.SystemFiles) (entries : d.tableSize = NumDirEntries)
    (bits : m.numBits = NumSectors) (disk : Disk) (heap heap' : Buf) :
    ∃ disk₁ disk₂, d.writeBack disk s.directoryFile heap = .ok disk₁ ∧
      PersistentBitmap.writeBack m disk₁ s.freeMapFile heap' = .ok disk₂ ∧
      s.Flushed d m disk disk₂ := by
  obtain ⟨disk₁, run₁, frame₁, table⟩ := sys.writeDirectory d entries disk heap
  obtain ⟨disk₂, run₂, frame₂, map⟩ := sys.writeMap m bits disk₁ heap'
  refine ⟨disk₁, disk₂, run₁, run₂, fun x hm hd => ?_, fun a ha => ?_, map⟩
  · rw [frame₂ x hm, frame₁ x hd]
  · rw [← table a ha]
    apply OpenFile.byteAt_congr sys.dir
    · exact fun x hx => frame₂ x fun hx' => sys.parts.2.2.2.2 x hx' hx
    · rw [sys.dirLength]
      unfold DirectoryFileSize
      omega

/-- `Remove` flushes the free map first. -/
theorem flush_map_directory (sys : s.SystemFiles) (entries : d.tableSize = NumDirEntries)
    (bits : m.numBits = NumSectors) (disk : Disk) (heap heap' : Buf) :
    ∃ disk₁ disk₂, PersistentBitmap.writeBack m disk s.freeMapFile heap = .ok disk₁ ∧
      d.writeBack disk₁ s.directoryFile heap' = .ok disk₂ ∧ s.Flushed d m disk disk₂ := by
  obtain ⟨disk₁, run₁, frame₁, map⟩ := sys.writeMap m bits disk heap
  obtain ⟨disk₂, run₂, frame₂, table⟩ := sys.writeDirectory d entries disk₁ heap'
  refine ⟨disk₁, disk₂, run₁, run₂, fun x hm hd => ?_, table, fun a ha => ?_⟩
  · rw [frame₂ x hd, frame₁ x hm]
  · rw [← map a ha]
    apply OpenFile.byteAt_congr sys.map
    · exact fun x hx => frame₂ x (sys.parts.2.2.2.2 x hx)
    · rw [sys.mapLength]
      omega

end SystemFiles

section Views

variable {s' : FileSystem} {d : Directory} {m : Bitmap}

/-- Two states with the same system files. -/
structure SameFiles (s s' : FileSystem) : Prop where
  map : s'.freeMapFile = s.freeMapFile
  dir : s'.directoryFile = s.directoryFile

theorem SameFiles.system (same : SameFiles s s') (sys : s.SystemFiles) : s'.SystemFiles := by
  have map : s'.mapHdr = s.mapHdr := congrArg OpenFile.hdr same.map
  have dir : s'.dirHdr = s.dirHdr := congrArg OpenFile.hdr same.dir
  constructor
  · exact map ▸ sys.map
  · exact map ▸ sys.mapLength
  · exact dir ▸ sys.dir
  · exact dir ▸ sys.dirLength
  · have nodup := sys.nodup
    unfold owned at nodup ⊢
    rw [map, dir]
    exact nodup

theorem directory_of_table (same : SameFiles s s')
    (table : ∀ a < EntrySize * NumDirEntries, s.dirHdr.byteAt s'.disk a = d.table a)
    (size : d.tableSize = NumDirEntries) {i : Nat} (hi : i < NumDirEntries) :
    s'.directory.inUse i = d.inUse i ∧ s'.directory.sector i = d.sector i := by
  have dir : s'.dirHdr = s.dirHdr := congrArg OpenFile.hdr same.dir
  have bytes : ∀ a < EntrySize * d.tableSize, s'.directory.table a = d.table a := by
    intro a ha
    rw [size] at ha
    rw [← table a ha, ← dir]
    rfl
  rw [← size] at hi
  exact ⟨Directory.inUse_congr bytes hi, Directory.sector_congr bytes hi⟩

theorem freeMap_of_bytes (same : SameFiles s s')
    (map : ∀ a < FreeMapFileSize, s.mapHdr.byteAt s'.disk a = m.map a) {x : Nat}
    (hx : x < NumSectors) : s'.freeMap.bit x = m.bit x := by
  have hdr : s'.mapHdr = s.mapHdr := congrArg OpenFile.hdr same.map
  apply Bitmap.bit_congr
  intro a low high
  rw [← map a, ← hdr]
  · rfl
  · unfold Bitmap.wordOf BitsInWord at *
    unfold FreeMapFileSize NumSectors at *
    omega

/-- The directory is what it was, if its data sectors are. -/
theorem table_of_sectors (sys : s.SystemFiles) (same : SameFiles s s')
    (kept : ∀ x ∈ s.dirHdr.sectors, s'.disk x = s.disk x) {a : Nat}
    (ha : a < EntrySize * NumDirEntries) : s'.directory.table a = s.directory.table a := by
  have dir : s'.dirHdr = s.dirHdr := congrArg OpenFile.hdr same.dir
  change s'.dirHdr.byteAt s'.disk a = s.dirHdr.byteAt s.disk a
  rw [dir]
  apply OpenFile.byteAt_congr sys.dir kept
  rw [sys.dirLength]
  unfold DirectoryFileSize
  omega

theorem directory_of_sectors (sys : s.SystemFiles) (same : SameFiles s s')
    (kept : ∀ x ∈ s.dirHdr.sectors, s'.disk x = s.disk x) {i : Nat} (hi : i < NumDirEntries) :
    s'.directory.inUse i = s.directory.inUse i ∧
      s'.directory.sector i = s.directory.sector i := by
  have table := fun a (ha : a < EntrySize * NumDirEntries) => table_of_sectors sys same kept ha
  exact ⟨Directory.inUse_congr table hi, Directory.sector_congr table hi⟩

theorem freeMap_of_sectors (sys : s.SystemFiles) (same : SameFiles s s')
    (kept : ∀ x ∈ s.mapHdr.sectors, s'.disk x = s.disk x) {x : Nat} (hx : x < NumSectors) :
    s'.freeMap.bit x = s.freeMap.bit x := by
  apply freeMap_of_bytes same _ hx
  intro a ha
  apply OpenFile.byteAt_congr sys.map kept
  rw [sys.mapLength]
  omega

end Views

end FileSystem

namespace FsInvariant
open FileSystem

variable {low : Int} {s s' : FileSystem}

theorem mono (inv : FsInvariant low s) {low' : Int} (h : low' ≤ low) : FsInvariant low' s where
  system := inv.system
  mapOnDisk := inv.mapOnDisk
  dirOnDisk := inv.dirOnDisk
  files := by
    intro i hi used
    obtain ⟨sector, valid, size⟩ := inv.files i hi used
    exact ⟨sector, valid, Int.le_trans h size⟩
  exact := inv.exact
  handles := inv.handles

theorem fileSector_lt (inv : FsInvariant low s) {i : Nat} (hi : i < NumDirEntries)
    (used : s.directory.inUse i = true) : s.fileSector i < NumSectors ∧
      (s.fileSector i : Int) = s.directory.sector i := by
  obtain ⟨nonneg, high⟩ := (inv.files i hi used).1
  unfold fileSector
  omega

theorem owned_entry (i : Fin NumDirEntries) (used : s.directory.inUse i = true) :
    s.owned (.entry i) = s.fileSector i :: (s.fileHeader i).sectors :=
  if_pos used

theorem fileSector_mem {i : Nat} (hi : i < NumDirEntries) (used : s.directory.inUse i = true) :
    s.fileSector i ∈ s.owned (.entry ⟨i, hi⟩) := by
  rw [owned_entry ⟨i, hi⟩ used]
  exact List.mem_cons_self

/-- No sector of a system file holds the header of another file. -/
theorem fileSector_outside (inv : FsInvariant low s) {i : Nat} (hi : i < NumDirEntries)
    (used : s.directory.inUse i = true) : s.fileSector i ∉ s.owned .system := by
  intro member
  have := inv.exact.disjoint _ _ _ member (fileSector_mem hi used)
  cases this

theorem mem_system {x : Nat} : x ∈ s.owned .system ↔ x = FreeMapSector ∨ x = DirectorySector ∨
    x ∈ s.mapHdr.sectors ∨ x ∈ s.dirHdr.sectors := by
  unfold owned
  simp only [List.mem_cons, List.mem_append]

theorem not_mem_system {x : Nat} (outside : x ∉ s.owned .system) : x ≠ FreeMapSector ∧
    x ≠ DirectorySector ∧ x ∉ s.mapHdr.sectors ∧ x ∉ s.dirHdr.sectors := by
  rw [mem_system, not_or, not_or, not_or] at outside
  exact outside

theorem dirSectors_mem {x : Nat} (member : x ∈ s.dirHdr.sectors) : x ∈ s.owned .system :=
  mem_system.mpr (.inr (.inr (.inr member)))

theorem unmarked_not_owned (inv : FsInvariant low s) {x : Nat} (unmarked : s.freeMap.bit x = false)
    (o : Owner) : x ∉ s.owned o := by
  intro member
  have marked := ((inv.exact.marked_iff x).mpr ⟨o, member⟩).2
  rw [unmarked] at marked
  cases marked

end FsInvariant

end NachOS.Filesys
