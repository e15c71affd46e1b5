import NachOS.Filesys.OpenFile
import Mathlib.Data.List.Find

/-!
# Directories and persistent bitmaps (filesys/directory.cc:37-190, filesys/pbitmap.cc:38-90)

Both are objects whose bytes are the contents of a file. A directory is a table
of entries of `EntrySize` bytes: `bool inUse` at offset 0, `int sector` at offset
4 and `char name[FileNameMaxLen + 1]` at offset 8, with the padding of the 32-bit
layout. `new DirectoryEntry[size]` leaves everything but `inUse` as it was in the
heap. A name is the memory a `char *` points to.
-/
namespace NachOS.Filesys
open NachOS.Lib NachOS.Library

/-- `strncmp(a, b, n) == 0`. -/
def strncmpEqual : Nat → Buf → Buf → Bool
  | 0, _, _ => true
  | n + 1, a, b =>
    if a 0 ≠ b 0 then false
    else if a 0 = 0 then true
    else strncmpEqual n (fun k => a (k + 1)) (fun k => b (k + 1))

/-- The byte `k` that `strncpy` stores: NUL from the first NUL of the source on. -/
def strncpyByte (source : Buf) (k : Nat) : Byte :=
  if (List.range k).any (fun j => source j = 0) then 0 else source k

theorem strncmpEqual_congr {n : Nat} {a a' b : Buf} (h : ∀ k < n, a k = a' k) :
    strncmpEqual n a b = strncmpEqual n a' b := by
  induction n generalizing a a' b with
  | zero => rfl
  | succ n ih =>
    rw [strncmpEqual, strncmpEqual, h 0 (Nat.succ_pos n),
      ih fun k hk => h (k + 1) (Nat.succ_lt_succ hk)]

theorem strncpyByte_zero (a : Buf) : strncpyByte a 0 = a 0 := rfl

theorem strncpyByte_succ (a : Buf) (k : Nat) :
    strncpyByte a (k + 1) = if a 0 = 0 then 0 else strncpyByte (fun j => a (j + 1)) k := by
  unfold strncpyByte
  rw [List.range_succ_eq_map, List.any_cons, List.any_map]
  by_cases zero : a 0 = 0#8
  · simp [zero]
  · simp [zero, Function.comp_def]

/-- `strncmp` compares what `strncpy` copies. -/
theorem strncmpEqual_iff {n : Nat} {a b : Buf} :
    strncmpEqual n a b = true ↔ ∀ k < n, strncpyByte a k = strncpyByte b k := by
  induction n generalizing a b with
  | zero => simp [strncmpEqual]
  | succ n ih =>
    have split : (∀ k < n + 1, strncpyByte a k = strncpyByte b k) ↔
        a 0 = b 0 ∧ ∀ k < n, strncpyByte a (k + 1) = strncpyByte b (k + 1) := by
      constructor
      · exact fun h => ⟨h 0 (Nat.succ_pos n), fun k hk => h (k + 1) (Nat.succ_lt_succ hk)⟩
      · intro ⟨first, rest⟩ k hk
        cases k with
        | zero => exact first
        | succ k => exact rest k (Nat.lt_of_succ_lt_succ hk)
    rw [split, strncmpEqual]
    simp only [strncpyByte_succ]
    by_cases first : a 0 = b 0
    · by_cases zero : b 0 = 0#8
      · simp [first, zero]
      · simp [first, zero, ih]
    · simp [first]

theorem strncpyByte_idem (a : Buf) (k : Nat) : strncpyByte (strncpyByte a) k = strncpyByte a k := by
  induction k generalizing a with
  | zero => rfl
  | succ k ih =>
    rw [strncpyByte_succ, strncpyByte_succ, strncpyByte_zero]
    by_cases zero : a 0 = 0
    · rw [if_pos zero, if_pos zero]
    · have tail : (fun j => strncpyByte a (j + 1)) = strncpyByte (fun j => a (j + 1)) := by
        funext j
        rw [strncpyByte_succ, if_neg zero]
      rw [if_neg zero, if_neg zero, tail, ih]

def FileNameMaxLen : Nat := 9

/-- `sizeof(DirectoryEntry)`. -/
def EntrySize : Nat := 20

structure Directory where
  tableSize : Nat
  table : Buf

namespace Directory

def inUse (d : Directory) (i : Nat) : Bool := d.table (EntrySize * i) ≠ 0

def sector (d : Directory) (i : Nat) : Int := int d.table (EntrySize * i + 4)

def name (d : Directory) (i : Nat) : Buf := fun k => d.table (EntrySize * i + 8 + k)

def setInUse (d : Directory) (i : Nat) (value : Byte) : Directory :=
  { d with table := Function.update d.table (EntrySize * i) value }

def setSector (d : Directory) (i : Nat) (sector : Int) : Directory :=
  { d with table := setInt d.table (EntrySize * i + 4) sector }

def setName (d : Directory) (i : Nat) (name : Buf) : Directory :=
  { d with table := blit d.table (EntrySize * i + 8) (strncpyByte name) FileNameMaxLen }

/-- The constructor: every entry is unused, the rest is what `heap` holds. -/
def new (heap : Buf) (size : Nat) : Directory where
  tableSize := size
  table := fun a => if a % EntrySize = 0 ∧ a < EntrySize * size then 0 else heap a

/-- `Directory::FetchFrom`. -/
def fetchFrom (d : Directory) (disk : Disk) (file : OpenFile) : Exec Directory := do
  let table ← OpenFile.readInto disk file.hdr d.table 0 (d.tableSize * EntrySize : Nat) 0
  .ok { d with table }

/-- `Directory::WriteBack`, with the buffer that `WriteAt` allocates. -/
def writeBack (d : Directory) (disk : Disk) (file : OpenFile) (heap : Buf) : Exec Disk := do
  let (_, disk) ← OpenFile.writeAt disk file.hdr heap d.table (d.tableSize * EntrySize : Nat) 0
  .ok disk

/-- `Directory::FindIndex`, `none` for -1. -/
def findIndex (d : Directory) (name : Buf) : Option Nat :=
  (List.range d.tableSize).find? fun i => d.inUse i && strncmpEqual FileNameMaxLen (d.name i) name

/-- `Directory::Find`. -/
def find (d : Directory) (name : Buf) : Int :=
  match d.findIndex name with
  | some i => d.sector i
  | none => -1

/-- `Directory::Add`. -/
def add (d : Directory) (name : Buf) (newSector : Int) : Bool × Directory :=
  if (d.findIndex name).isSome then (false, d)
  else
    match (List.range d.tableSize).find? fun i => !d.inUse i with
    | some i => (true, ((d.setInUse i 1).setName i name).setSector i newSector)
    | none => (false, d)

/-- `Directory::Remove`. -/
def remove (d : Directory) (name : Buf) : Bool × Directory :=
  match d.findIndex name with
  | none => (false, d)
  | some i => (true, d.setInUse i 0)

variable {d d' : Directory} {i j : Nat}

theorem inUse_of_byte (h : d'.table (EntrySize * i) = d.table (EntrySize * i)) :
    d'.inUse i = d.inUse i :=
  congrArg (fun b : Byte => decide (b ≠ 0)) h

theorem inUse_congr (h : ∀ a < EntrySize * d.tableSize, d'.table a = d.table a)
    (hi : i < d.tableSize) : d'.inUse i = d.inUse i :=
  inUse_of_byte (h _ (by unfold EntrySize; omega))

theorem sector_congr (h : ∀ a < EntrySize * d.tableSize, d'.table a = d.table a)
    (hi : i < d.tableSize) : d'.sector i = d.sector i :=
  int_congr fun a _ high => h a (by unfold EntrySize at *; omega)

theorem name_congr (h : ∀ a < EntrySize * d.tableSize, d'.table a = d.table a)
    (hi : i < d.tableSize) {k : Nat} (hk : k < FileNameMaxLen) : d'.name i k = d.name i k :=
  h _ (by unfold EntrySize FileNameMaxLen at *; omega)

@[simp] theorem setInUse_inUse (value : Byte) :
    (d.setInUse i value).inUse j = if j = i then decide (value ≠ 0) else d.inUse j := by
  unfold inUse setInUse
  split
  next same => simp [same]
  next other =>
    have : EntrySize * j ≠ EntrySize * i := by
      unfold EntrySize
      omega
    simp [Function.update_of_ne this]

@[simp] theorem setInUse_sector (value : Byte) : (d.setInUse i value).sector j = d.sector j :=
  int_congr fun a low high => Function.update_of_ne (by unfold EntrySize at *; omega) _ _

@[simp] theorem setName_inUse (name : Buf) : (d.setName i name).inUse j = d.inUse j :=
  inUse_of_byte (blit_outside (by unfold EntrySize FileNameMaxLen; omega))

@[simp] theorem setName_sector (name : Buf) : (d.setName i name).sector j = d.sector j :=
  int_congr fun a low high => blit_outside (by unfold EntrySize FileNameMaxLen at *; omega)

@[simp] theorem setSector_inUse (sector : Int) : (d.setSector i sector).inUse j = d.inUse j :=
  inUse_of_byte (setWord_outside (by unfold EntrySize; omega))

theorem setSector_sector {sector : Int} (low : -2147483648 ≤ sector) (high : sector ≤ 2147483647) :
    (d.setSector i sector).sector j = if j = i then sector else d.sector j := by
  unfold Directory.sector setSector
  split
  next same =>
    subst same
    exact int_setInt low high
  next other => exact int_setInt_of_disjoint (by unfold EntrySize; omega)

theorem findIndex_some {name : Buf} (h : d.findIndex name = some i) :
    i < d.tableSize ∧ d.inUse i = true := by
  have found := List.find?_some h
  have member := List.mem_of_find?_eq_some h
  rw [Bool.and_eq_true] at found
  exact ⟨List.mem_range.mp member, found.1⟩

/-- A lookup reads the entries only. -/
theorem findIndex_congr (size : d'.tableSize = d.tableSize)
    (h : ∀ a < EntrySize * d.tableSize, d'.table a = d.table a) (name : Buf) :
    d'.findIndex name = d.findIndex name := by
  unfold findIndex
  rw [size]
  apply List.find?_congr
  intro i hi
  rw [List.mem_range] at hi
  rw [inUse_congr h hi, strncmpEqual_congr fun k hk => name_congr h hi hk]

/-- An entry in use has this name, as `strncmp` compares it. -/
def Holds (d : Directory) (name : Buf) : Prop :=
  ∃ i < d.tableSize, d.inUse i = true ∧ strncmpEqual FileNameMaxLen (d.name i) name = true

def HasFree (d : Directory) : Prop := ∃ i < d.tableSize, d.inUse i = false

/-- The table after entry `i` got a name: the bytes of the other entries are the same. -/
structure Filled (d : Directory) (i : Nat) (name : Buf) (d' : Directory) : Prop where
  frame : ∀ a < EntrySize * d.tableSize, a < EntrySize * i ∨ EntrySize * (i + 1) ≤ a →
    d'.table a = d.table a
  name : ∀ k < FileNameMaxLen, d'.name i k = strncpyByte name k

theorem findIndex_isSome_iff {name : Buf} : (d.findIndex name).isSome = true ↔ d.Holds name := by
  unfold findIndex Holds
  rw [List.find?_isSome]
  simp only [List.mem_range, Bool.and_eq_true]

theorem holds_congr (size : d'.tableSize = d.tableSize)
    (h : ∀ a < EntrySize * d.tableSize, d'.table a = d.table a) (name : Buf) :
    d'.Holds name ↔ d.Holds name := by
  rw [← findIndex_isSome_iff, ← findIndex_isSome_iff, findIndex_congr size h]

theorem hasFree_congr (size : d'.tableSize = d.tableSize)
    (h : ∀ a < EntrySize * d.tableSize, d'.table a = d.table a) : d'.HasFree ↔ d.HasFree := by
  unfold HasFree
  rw [size]
  apply exists_congr
  intro i
  apply and_congr_right
  intro hi
  rw [inUse_congr h hi]

/-- The three assignments of `Add`. -/
theorem filled_of_set (name : Buf) (newSector : Int) :
    d.Filled i name (((d.setInUse i 1).setName i name).setSector i newSector) := by
  constructor
  · intro a _ outside
    unfold EntrySize at outside
    have sector : ¬(EntrySize * i + 4 ≤ a ∧ a < EntrySize * i + 4 + 4) := by
      unfold EntrySize
      omega
    have first : a ≠ EntrySize * i := by
      unfold EntrySize
      omega
    calc (((d.setInUse i 1).setName i name).setSector i newSector).table a
        = ((d.setInUse i 1).setName i name).table a := setWord_outside (by omega)
      _ = (d.setInUse i 1).table a := blit_outside (by unfold EntrySize FileNameMaxLen; omega)
      _ = d.table a := Function.update_of_ne first _ _
  · intro k hk
    have inside : EntrySize * i + 8 + k < EntrySize * i + 8 + FileNameMaxLen := by omega
    calc (((d.setInUse i 1).setName i name).setSector i newSector).name i k
        = ((d.setInUse i 1).setName i name).name i k := setWord_outside (by omega)
      _ = strncpyByte name (EntrySize * i + 8 + k - (EntrySize * i + 8)) :=
        blit_inside (by omega) inside
      _ = strncpyByte name k := by rw [Nat.add_sub_cancel_left]

/-- `Filled` is about the tables only. -/
theorem Filled.congr {e e' : Directory} {name : Buf} (filled : d.Filled i name d')
    (hi : i < d.tableSize) (size : e.tableSize = d.tableSize)
    (before : ∀ a < EntrySize * d.tableSize, e.table a = d.table a)
    (after : ∀ a < EntrySize * d.tableSize, e'.table a = d'.table a) : e.Filled i name e' := by
  constructor
  · intro a ha outside
    rw [size] at ha
    rw [after a ha, before a ha]
    exact filled.frame a ha outside
  · intro k hk
    rw [← filled.name k hk]
    exact after _ (by unfold EntrySize FileNameMaxLen at *; omega)

namespace Filled

variable {name : Buf}

/-- A lookup takes the new entry for the name it got. -/
theorem matches_iff (filled : d.Filled i name d') {other : Buf} :
    strncmpEqual FileNameMaxLen (d'.name i) other = true ↔
      ∀ k < FileNameMaxLen, strncpyByte name k = strncpyByte other k := by
  rw [strncmpEqual_congr filled.name, strncmpEqual_iff]
  simp only [strncpyByte_idem]

/-- The other entries match what they matched before. -/
theorem name_other (filled : d.Filled i name d') {j : Nat} (hj : j < d.tableSize) (other : j ≠ i)
    (sought : Buf) : strncmpEqual FileNameMaxLen (d'.name j) sought =
      strncmpEqual FileNameMaxLen (d.name j) sought := by
  apply strncmpEqual_congr
  intro k hk
  exact filled.frame _ (by unfold EntrySize FileNameMaxLen at *; omega)
    (by unfold EntrySize FileNameMaxLen at *; omega)

theorem findIndex_new (filled : d.Filled i name d') (hi : i < d.tableSize)
    (size : d'.tableSize = d.tableSize)
    (inUse : ∀ j < d.tableSize, d'.inUse j = if j = i then true else d.inUse j)
    (fresh : ¬d.Holds name) : d'.findIndex name = some i := by
  have used : d'.inUse i = true := by rw [inUse i hi, if_pos rfl]
  have holds : d'.Holds name :=
    ⟨i, size ▸ hi, used, filled.matches_iff.mpr fun _ _ => rfl⟩
  obtain ⟨j, found⟩ := Option.isSome_iff_exists.mp (findIndex_isSome_iff.mpr holds)
  have first := List.find?_some found
  obtain ⟨hj, usedj⟩ := findIndex_some found
  rw [size] at hj
  by_cases same : j = i
  · rw [found, same]
  · rw [Bool.and_eq_true, filled.name_other hj same] at first
    rw [inUse j hj, if_neg same] at usedj
    exact absurd ⟨j, hj, usedj, first.2⟩ fresh

/-- A name that was found is not one that the new entry has: the new name would have
been refused. -/
theorem findIndex_old (filled : d.Filled i name d') (size : d'.tableSize = d.tableSize)
    (unused : d.inUse i = false)
    (inUse : ∀ j < d.tableSize, d'.inUse j = if j = i then true else d.inUse j)
    (fresh : ¬d.Holds name) {other : Buf} (found : d.findIndex other = some j) :
    d'.findIndex other = some j := by
  have first := List.find?_some found
  obtain ⟨hj, usedj⟩ := findIndex_some found
  rw [Bool.and_eq_true, strncmpEqual_iff] at first
  have apart : strncmpEqual FileNameMaxLen (d'.name i) other = false := by
    rw [Bool.eq_false_iff]
    intro same
    rw [filled.matches_iff] at same
    apply fresh
    refine ⟨j, hj, usedj, strncmpEqual_iff.mpr fun k hk => ?_⟩
    rw [first.2 k hk, same k hk]
  rw [← found]
  unfold findIndex
  rw [size]
  apply List.find?_congr
  intro x hx
  rw [List.mem_range] at hx
  by_cases new : x = i
  · rw [new, apart, unused, Bool.and_false, Bool.false_and]
  · rw [inUse x hx, if_neg new, filled.name_other hx new]

end Filled

/-- `Add` fills a free entry, or changes nothing because the name is there already or
there is no free entry. -/
theorem add_cases (d : Directory) (name : Buf) {newSector : Int}
    (low : -2147483648 ≤ newSector) (high : newSector ≤ 2147483647) :
    (∃ i d', d.add name newSector = (true, d') ∧ ¬d.Holds name ∧ i < d.tableSize ∧
      d.inUse i = false ∧ d'.tableSize = d.tableSize ∧
      (∀ j, d'.inUse j = if j = i then true else d.inUse j) ∧
      (∀ j, d'.sector j = if j = i then newSector else d.sector j) ∧ d.Filled i name d') ∨
    d.add name newSector = (false, d) ∧ (d.Holds name ∨ ¬d.HasFree) := by
  unfold add
  split
  next found => exact .inr ⟨rfl, .inl (findIndex_isSome_iff.mp found)⟩
  next fresh =>
    rw [findIndex_isSome_iff] at fresh
    split
    next i found =>
      have unused := List.find?_some found
      have member := List.mem_of_find?_eq_some found
      refine .inl ⟨i, _, rfl, fresh, List.mem_range.mp member, by simpa using unused, rfl, ?_, ?_,
        filled_of_set name newSector⟩
      · intro j
        simp
      · intro j
        rw [setSector_sector low high]
        simp
    next full =>
      refine .inr ⟨rfl, .inr ?_⟩
      intro ⟨i, hi, unused⟩
      have used := List.find?_eq_none.mp full i (List.mem_range.mpr hi)
      simp [unused] at used

theorem new_inUse (heap : Buf) {size : Nat} (h : i < size) : (new heap size).inUse i = false := by
  have used : EntrySize * i % EntrySize = 0 ∧ EntrySize * i < EntrySize * size := by
    unfold EntrySize
    omega
  simp [inUse, new, used]

end Directory

namespace PersistentBitmap

def numWords (numItems : Nat) : Nat := (divRoundUp numItems BitsInWord).toNat

/-- The constructor from a file, and `PersistentBitmap::FetchFrom`. -/
def fetchFrom (disk : Disk) (file : OpenFile) (numItems : Nat) : Exec Bitmap := do
  let fresh := Bitmap.new numItems
  let map ← OpenFile.readInto disk file.hdr fresh.map 0 (4 * numWords numItems : Nat) 0
  .ok { fresh with map }

/-- `PersistentBitmap::WriteBack`, with the buffer that `WriteAt` allocates. -/
def writeBack (m : Bitmap) (disk : Disk) (file : OpenFile) (heap : Buf) : Exec Disk := do
  let (_, disk) ← OpenFile.writeAt disk file.hdr heap m.map (4 * numWords m.numBits : Nat) 0
  .ok disk

end PersistentBitmap

end NachOS.Filesys
