import NachOS.Filesys.FileSystem
import NachOS.Filesys.FlatFile
import NachOS.Lib.Component
import Mathlib.Data.Finmap

/-!
# Directories as finite maps (filesys/directory.cc:37-174)

What a directory is for: a finite map from the first `FileNameMaxLen` characters of a name
to a sector, which `WriteBack` saves in a file and `FetchFrom` takes back.
-/
namespace NachOS.Filesys
open NachOS.Lib NachOS.Library

/-- The characters before the NUL, the first `n` of them. -/
def chars (n : Nat) (name : Buf) : List Byte := ((List.range n).map name).takeWhile (· ≠ 0)

theorem chars_succ (n : Nat) (name : Buf) :
    chars (n + 1) name =
      if name 0 = 0 then [] else name 0 :: chars n fun k => name (k + 1) := by
  unfold chars
  rw [List.range_succ_eq_map, List.map_cons, List.map_map, List.takeWhile_cons]
  by_cases zero : name 0 = 0
  · rw [if_pos zero, if_neg (by simpa using zero)]
  · rw [if_neg zero, if_pos (by simpa using zero)]
    rfl

/-- `strncmp` compares the characters. -/
theorem strncmpEqual_iff_chars {n : Nat} {a b : Buf} :
    strncmpEqual n a b = true ↔ chars n a = chars n b := by
  induction n generalizing a b with
  | zero => simp [strncmpEqual, chars]
  | succ n ih =>
    rw [strncmpEqual, chars_succ, chars_succ]
    by_cases first : a 0 = b 0
    · by_cases zero : b 0 = 0#8
      · simp [first, zero]
      · simp [first, zero, ih]
    · by_cases zero : b 0 = 0#8
      · have other : ¬a 0 = 0#8 := by
          rw [← zero]
          exact first
        simp [zero, other]
      · by_cases zero' : a 0 = 0#8
        · simp [zero', zero, Ne.symm zero]
        · simp [first, zero, zero']

theorem chars_congr {n : Nat} {a b : Buf} (same : ∀ k < n, a k = b k) : chars n a = chars n b := by
  unfold chars
  rw [List.map_congr_left fun k hk => same k (List.mem_range.mp hk)]

namespace Directory

/-- What a directory looks at of a name. -/
def key (name : Buf) : List Byte := chars FileNameMaxLen name

/-- Sectors by name. -/
abbrev SectorMap := Finmap fun _ : List Byte => Int

/-- No two entries in use have the same key, and their keys and sectors are those of `f`. -/
structure Maps (d : Directory) (f : SectorMap) : Prop where
  unique : ∀ i < d.tableSize, ∀ j < d.tableSize, d.inUse i = true → d.inUse j = true →
    key (d.name i) = key (d.name j) → i = j
  lookup_iff : ∀ k v, f.lookup k = some v ↔
    ∃ i < d.tableSize, d.inUse i = true ∧ key (d.name i) = k ∧ d.sector i = v

variable {d d' : Directory} {f : SectorMap} {name : Buf} {i : Nat}

theorem findIndex_key (h : d.findIndex name = some i) : key (d.name i) = key name := by
  have found := List.find?_some h
  rw [Bool.and_eq_true, strncmpEqual_iff_chars] at found
  exact found.2

theorem Filled.key_new (filled : d.Filled i name d') : key (d'.name i) = key name :=
  strncmpEqual_iff_chars.mp (filled.matches_iff.mpr fun _ _ => rfl)

theorem Filled.key_other (filled : d.Filled i name d') {j : Nat} (hj : j < d.tableSize)
    (other : j ≠ i) : key (d'.name j) = key (d.name j) := by
  apply strncmpEqual_iff_chars.mp
  rw [filled.name_other hj other]
  exact strncmpEqual_iff_chars.mpr rfl

@[simp] theorem key_setInUse (d : Directory) (i j : Nat) (value : Byte) :
    key ((d.setInUse i value).name j) = key (d.name j) := by
  apply chars_congr
  intro k hk
  exact Function.update_of_ne (by unfold EntrySize FileNameMaxLen at *; omega) _ _

namespace Maps

theorem mem_iff (maps : d.Maps f) {k : List Byte} :
    k ∈ f ↔ ∃ i < d.tableSize, d.inUse i = true ∧ key (d.name i) = k := by
  rw [Finmap.mem_iff]
  constructor
  · intro ⟨v, found⟩
    obtain ⟨i, hi, used, same, -⟩ := (maps.lookup_iff k v).mp found
    exact ⟨i, hi, used, same⟩
  · intro ⟨i, hi, used, same⟩
    exact ⟨d.sector i, (maps.lookup_iff k _).mpr ⟨i, hi, used, same, rfl⟩⟩

theorem holds_iff (maps : d.Maps f) : d.Holds name ↔ key name ∈ f := by
  rw [maps.mem_iff]
  unfold Holds
  simp only [strncmpEqual_iff_chars]
  rfl

theorem find (maps : d.Maps f) (name : Buf) : d.find name = (f.lookup (key name)).getD (-1) := by
  unfold Directory.find
  cases found : d.findIndex name with
  | some i =>
    obtain ⟨hi, used⟩ := findIndex_some found
    have here := (maps.lookup_iff (key name) (d.sector i)).mpr
      ⟨i, hi, used, findIndex_key found, rfl⟩
    rw [here]
    rfl
  | none =>
    have missing : key name ∉ f := by
      rw [← maps.holds_iff, ← findIndex_isSome_iff, found]
      simp
    rw [Finmap.lookup_eq_none.mpr missing]
    rfl

/-- The entries in use are as many as the keys. -/
theorem full_iff (maps : d.Maps f) : ¬d.HasFree ↔ f.keys.card = d.tableSize := by
  have image : f.keys =
      ((Finset.range d.tableSize).filter fun i => d.inUse i = true).image
        fun i => key (d.name i) := by
    ext k
    rw [Finmap.mem_keys, maps.mem_iff, Finset.mem_image]
    simp only [Finset.mem_filter, Finset.mem_range, and_assoc]
  have injective : Set.InjOn (fun i => key (d.name i))
      ((Finset.range d.tableSize).filter fun i => d.inUse i = true) := by
    intro i hi j hj same
    simp only [Finset.coe_filter, Finset.mem_range, Set.mem_ofPred_eq] at hi hj
    exact maps.unique i hi.1 j hj.1 hi.2 hj.2 same
  have all : ((Finset.range d.tableSize).filter fun i => d.inUse i = true).card = d.tableSize ↔
      ∀ i ∈ Finset.range d.tableSize, d.inUse i = true := by
    rw [← Finset.card_filter_eq_iff, Finset.card_range]
  rw [image, Finset.card_image_of_injOn injective, all]
  unfold HasFree
  simp

/-- A new directory is empty. -/
theorem new (heap : Buf) (size : Nat) : (Directory.new heap size).Maps ∅ := by
  have unused : ∀ i < size, (Directory.new heap size).inUse i = false :=
    fun i hi => new_inUse heap hi
  constructor
  · intro i hi j _ used
    rw [unused i hi] at used
    cases used
  · intro k v
    rw [Finmap.lookup_empty]
    constructor
    · intro found
      cases found
    · intro ⟨i, hi, used, _⟩
      rw [unused i hi] at used
      cases used

/-- The map is in the bytes of the table. -/
theorem congr (maps : d.Maps f) (size : d'.tableSize = d.tableSize)
    (same : ∀ a < EntrySize * d.tableSize, d'.table a = d.table a) : d'.Maps f := by
  have keys : ∀ i < d.tableSize, key (d'.name i) = key (d.name i) :=
    fun i hi => chars_congr fun k hk => name_congr same hi hk
  constructor
  · intro i hi j hj usedi usedj both
    rw [size] at hi hj
    rw [inUse_congr same hi] at usedi
    rw [inUse_congr same hj] at usedj
    rw [keys i hi, keys j hj] at both
    exact maps.unique i hi j hj usedi usedj both
  · intro k v
    rw [maps.lookup_iff, size]
    apply exists_congr
    intro i
    apply and_congr_right
    intro hi
    rw [inUse_congr same hi, keys i hi, sector_congr same hi]

/-- A free entry that gets a name adds its key. -/
theorem add (maps : d.Maps f) (fresh : key name ∉ f) (hi : i < d.tableSize)
    (unused : d.inUse i = false) (size : d'.tableSize = d.tableSize)
    (used : ∀ j, d'.inUse j = if j = i then true else d.inUse j) {newSector : Int}
    (sector : ∀ j, d'.sector j = if j = i then newSector else d.sector j)
    (filled : d.Filled i name d') : d'.Maps (f.insert (key name) newSector) := by
  have apart : ∀ j < d.tableSize, d.inUse j = true → key (d.name j) ≠ key name := by
    intro j hj usedj same
    exact fresh (maps.mem_iff.mpr ⟨j, hj, usedj, same⟩)
  have old : ∀ j, d'.inUse j = true → j ≠ i → d.inUse j = true := by
    intro j usedj other
    rw [used, if_neg other] at usedj
    exact usedj
  constructor
  · intro x hx y hy usedx usedy same
    rw [size] at hx hy
    by_cases firstx : x = i
    · by_cases firsty : y = i
      · rw [firstx, firsty]
      · rw [firstx, filled.key_new, filled.key_other hy firsty] at same
        exact absurd same.symm (apart y hy (old y usedy firsty))
    · by_cases firsty : y = i
      · rw [firsty, filled.key_new, filled.key_other hx firstx] at same
        exact absurd same (apart x hx (old x usedx firstx))
      · rw [filled.key_other hx firstx, filled.key_other hy firsty] at same
        exact maps.unique x hx y hy (old x usedx firstx) (old y usedy firsty) same
  · intro k v
    by_cases new : k = key name
    · rw [new, Finmap.lookup_insert, Option.some.injEq]
      constructor
      · intro value
        refine ⟨i, size ▸ hi, by rw [used, if_pos rfl], filled.key_new, ?_⟩
        rw [sector, if_pos rfl, value]
      · intro ⟨j, hj, usedj, same, value⟩
        rw [size] at hj
        by_cases here : j = i
        · rw [sector, if_pos here] at value
          exact value
        · rw [filled.key_other hj here] at same
          exact absurd same (apart j hj (old j usedj here))
    · rw [Finmap.lookup_insert_of_ne _ new, maps.lookup_iff, size]
      apply exists_congr
      intro j
      apply and_congr_right
      intro hj
      by_cases here : j = i
      · subst here
        rw [filled.key_new]
        simp [unused, Ne.symm new]
      · rw [used, if_neg here, filled.key_other hj here, sector, if_neg here]

/-- An entry that is given up takes its key with it. -/
theorem remove (maps : d.Maps f) (found : d.findIndex name = some i) :
    (d.setInUse i 0).Maps (f.erase (key name)) := by
  obtain ⟨hi, used⟩ := findIndex_some found
  have same := findIndex_key found
  have still : ∀ j, (d.setInUse i 0).inUse j = true ↔ j ≠ i ∧ d.inUse j = true := by
    intro j
    by_cases here : j = i <;> simp [here]
  constructor
  · intro x hx y hy usedx usedy both
    simp only [key_setInUse] at both
    exact maps.unique x hx y hy ((still x).mp usedx).2 ((still y).mp usedy).2 both
  · intro k v
    simp only [still, key_setInUse, setInUse_sector]
    by_cases gone : k = key name
    · rw [gone, Finmap.lookup_erase]
      constructor
      · intro none
        cases none
      · intro ⟨j, hj, ⟨other, usedj⟩, both, _⟩
        exact absurd (maps.unique j hj i hi usedj used (both.trans same.symm)) other
    · rw [Finmap.lookup_erase_ne gone, maps.lookup_iff]
      apply exists_congr
      intro j
      apply and_congr_right
      intro hj
      by_cases here : j = i
      · subst here
        rw [same]
        simp [Ne.symm gone]
      · simp [here]

end Maps

end Directory

/-- A call on a directory; `WriteBack` comes with the buffer of its `WriteAt`. -/
inductive DirectoryOp where
  | add (name : Buf) (newSector : Int)
  | remove (name : Buf)
  | find (name : Buf)
  | writeBack (heap : Buf)
  | fetchFrom

namespace DirectoryOp
open Directory

/-- What a call returns: `Add` and `Remove` a truth value, `Find` a sector. -/
inductive Answer where
  | done (value : Bool)
  | sector (value : Int)
  | none
  deriving DecidableEq

/-- The map that the directory stands for, and the one that its file holds if it has been
written. -/
structure Saves where
  current : SectorMap
  saved : Option SectorMap

def step (file : OpenFile) (op : DirectoryOp) (s : Directory × Disk) :
    Option (Answer × (Directory × Disk)) :=
  match op with
  | add name newSector => some (.done (s.1.add name newSector).1, (s.1.add name newSector).2, s.2)
  | remove name => some (.done (s.1.remove name).1, (s.1.remove name).2, s.2)
  | find name => some (.sector (s.1.find name), s)
  | writeBack heap => (s.1.writeBack s.2 file heap).toOption.map fun disk => (.none, s.1, disk)
  | fetchFrom => (s.1.fetchFrom s.2 file).toOption.map fun d => (.none, d, s.2)

def spec (tableSize : Nat) (op : DirectoryOp) (t : Saves) : Answer × Saves :=
  match op with
  | add name newSector =>
    if key name ∈ t.current ∨ t.current.keys.card = tableSize then (.done false, t)
    else (.done true, { t with current := t.current.insert (key name) newSector })
  | remove name =>
    if key name ∈ t.current then (.done true, { t with current := t.current.erase (key name) })
    else (.done false, t)
  | find name => (.sector ((t.current.lookup (key name)).getD (-1)), t)
  | writeBack _ => (.none, { t with saved := some t.current })
  | fetchFrom => (.none, { t with current := t.saved.getD ∅ })

/-- The file has room for the table. -/
def Fits (file : OpenFile) (tableSize : Nat) : Prop :=
  file.hdr.Valid ∧ ((tableSize * EntrySize : Nat) : Int) ≤ file.hdr.numBytes

/-- A sector number is an `int`; what is fetched has been written to a file with room. -/
def legal (file : OpenFile) (tableSize : Nat) (op : DirectoryOp) (t : Saves) : Prop :=
  match op with
  | add _ newSector => -2147483648 ≤ newSector ∧ newSector ≤ 2147483647
  | writeBack _ => Fits file tableSize
  | fetchFrom => Fits file tableSize ∧ t.saved.isSome
  | _ => True

/-- A directory and its file as two finite maps. -/
def component (file : OpenFile) (tableSize : Nat) :
    Component DirectoryOp (Directory × Disk) Saves Answer :=
  ⟨step file, spec tableSize, fun op _ t => op.legal file tableSize t⟩

end DirectoryOp

namespace Directory
open DirectoryOp

variable {d d' : Directory} {f : SectorMap} {name : Buf} {tableSize : Nat}

theorem Maps.add_answer (maps : d.Maps f) (name : Buf) {newSector : Int}
    (low : -2147483648 ≤ newSector) (high : newSector ≤ 2147483647) :
    ((key name ∈ f ∨ f.keys.card = d.tableSize) ∧ d.add name newSector = (false, d)) ∨
    (¬(key name ∈ f ∨ f.keys.card = d.tableSize) ∧
      ∃ d', d.add name newSector = (true, d') ∧ d'.tableSize = d.tableSize ∧
        d'.Maps (f.insert (key name) newSector)) := by
  rw [← maps.full_iff, ← maps.holds_iff]
  rcases d.add_cases name low high with
    ⟨i, d', run, fresh, hi, unused, size, used, sector, filled⟩ | ⟨run, refused⟩
  · have free : d.HasFree := ⟨i, hi, unused⟩
    have missing : key name ∉ f := fun member => fresh (maps.holds_iff.mpr member)
    refine .inr ⟨fun blocked => ?_, d', run, size,
      maps.add missing hi unused size used sector filled⟩
    rcases blocked with holds | full
    · exact fresh holds
    · exact full free
  · exact .inl ⟨refused, run⟩

theorem Maps.remove_answer (maps : d.Maps f) (name : Buf) :
    (key name ∈ f ∧ ∃ d', d.remove name = (true, d') ∧ d'.tableSize = d.tableSize ∧
      d'.Maps (f.erase (key name))) ∨
    (key name ∉ f ∧ d.remove name = (false, d)) := by
  rw [← maps.holds_iff, ← findIndex_isSome_iff]
  unfold Directory.remove
  cases found : d.findIndex name with
  | none => exact .inr ⟨by simp, rfl⟩
  | some i => exact .inl ⟨rfl, d.setInUse i 0, rfl, rfl, maps.remove found⟩

/-- The directory that the bytes of the file are. -/
def stored (file : OpenFile) (tableSize : Nat) (disk : Disk) : Directory :=
  ⟨tableSize, file.hdr.byteAt disk⟩

theorem writeBack_stored {file : OpenFile} (fits : Fits file d.tableSize) (disk : Disk)
    (heap : Buf) : ∃ disk', d.writeBack disk file heap = .ok disk' ∧
      ∀ a < EntrySize * d.tableSize, (stored file d.tableSize disk').table a = d.table a := by
  obtain ⟨valid, room⟩ := fits
  obtain ⟨count, disk', run, -, bytes⟩ := OpenFile.writeAt_front disk valid room heap d.table
  refine ⟨disk', ?_, ?_⟩
  · simp only [writeBack, run, Exec.ok_bind]
  · intro a ha
    exact bytes a (by rw [Nat.mul_comm]; exact ha)

theorem fetchFrom_stored {file : OpenFile} (fits : Fits file d.tableSize) (disk : Disk) :
    ∃ d', d.fetchFrom disk file = .ok d' ∧ d'.tableSize = d.tableSize ∧
      ∀ a < EntrySize * d.tableSize, d'.table a = (stored file d.tableSize disk).table a := by
  obtain ⟨valid, room⟩ := fits
  obtain ⟨table, run, bytes, -⟩ := OpenFile.readInto_front disk valid room d.table
  refine ⟨{ d with table }, ?_, rfl, ?_⟩
  · simp only [fetchFrom, run, Exec.ok_bind]
  · intro a ha
    exact bytes a (by rw [Nat.mul_comm]; exact ha)

/-- The directory and its file, each with its map. -/
def Related (file : OpenFile) (tableSize : Nat) (s : Directory × Disk) (t : Saves) : Prop :=
  s.1.tableSize = tableSize ∧ s.1.Maps t.current ∧
    ∀ g, t.saved = some g → (stored file tableSize s.2).Maps g

theorem directoryOp_simulates {file : OpenFile} (_ : Nat) (op : DirectoryOp)
    (s : Directory × Disk) (t : Saves) (related : Related file tableSize s t)
    (legal : op.legal file tableSize t) :
    ∃ s', op.step file s = some ((op.spec tableSize t).1, s') ∧
      Related file tableSize s' (op.spec tableSize t).2 := by
  obtain ⟨d, disk⟩ := s
  obtain ⟨rfl, maps, saved⟩ := related
  simp only at maps saved legal ⊢
  cases op with
  | add name newSector =>
    rcases maps.add_answer name legal.1 legal.2 with ⟨refused, run⟩ | ⟨taken, d', run, size, maps'⟩
    · refine ⟨(d, disk), ?_, ?_⟩
      · simp only [step, run, spec, if_pos refused]
      · simp only [spec, if_pos refused]
        exact ⟨rfl, maps, saved⟩
    · refine ⟨(d', disk), ?_, ?_⟩
      · simp only [step, run, spec, if_neg taken]
      · simp only [spec, if_neg taken]
        exact ⟨size, maps', saved⟩
  | remove name =>
    rcases maps.remove_answer name with ⟨there, d', run, size, maps'⟩ | ⟨missing, run⟩
    · refine ⟨(d', disk), ?_, ?_⟩
      · simp only [step, run, spec, if_pos there]
      · simp only [spec, if_pos there]
        exact ⟨size, maps', saved⟩
    · refine ⟨(d, disk), ?_, ?_⟩
      · simp only [step, run, spec, if_neg missing]
      · simp only [spec, if_neg missing]
        exact ⟨rfl, maps, saved⟩
  | find name =>
    refine ⟨(d, disk), ?_, rfl, maps, saved⟩
    simp only [step, spec, maps.find]
  | writeBack heap =>
    obtain ⟨disk', run, same⟩ := writeBack_stored legal disk heap
    refine ⟨(d, disk'), by simp [step, spec, run, Except.toOption], rfl, maps, ?_⟩
    intro g written
    cases written
    exact maps.congr rfl same
  | fetchFrom =>
    obtain ⟨fits, written⟩ := legal
    obtain ⟨g, written⟩ := Option.isSome_iff_exists.mp written
    obtain ⟨d', run, size, same⟩ := fetchFrom_stored fits disk
    refine ⟨(d', disk), by simp [step, spec, run, Except.toOption], size, ?_, saved⟩
    simp only [spec, written, Option.getD_some]
    exact (saved g written).congr size same

/-- A run of calls on a new directory: their answers are those of a finite map from the
first `FileNameMaxLen` characters of a name to a sector, and so are those of the calls
that may follow; no two entries in use have the same key. -/
theorem directory_run_maps (heap : Buf) (tableSize : Nat) (file : OpenFile) (disk : Disk)
    (ops : List DirectoryOp)
    (legal : (component file tableSize).Legal ops (Directory.new heap tableSize, disk) ⟨∅, none⟩) :
    ∃ d disk' answers t, (component file tableSize).specRun ops ⟨∅, none⟩ = (answers, t) ∧
      (component file tableSize).run ops (Directory.new heap tableSize, disk) =
        some (answers, d, disk') ∧
      d.tableSize = tableSize ∧
      (∀ name, d.find name = (t.current.lookup (key name)).getD (-1)) ∧
      (∀ name newSector, -2147483648 ≤ newSector → newSector ≤ 2147483647 →
        ((d.add name newSector).1 = false ↔
          key name ∈ t.current ∨ ∀ i < tableSize, d.inUse i = true)) ∧
      (∀ name, (d.remove name).1 = false ↔ key name ∉ t.current) ∧
      ∀ i < tableSize, ∀ j < tableSize, d.inUse i = true → d.inUse j = true →
        key (d.name i) = key (d.name j) → i = j := by
  have start : Related file tableSize (Directory.new heap tableSize, disk) ⟨∅, none⟩ :=
    ⟨rfl, .new heap tableSize, fun g written => by cases written⟩
  obtain ⟨⟨d, disk'⟩, run, size, maps, -⟩ := Component.refines
    (R := fun _ => Related file tableSize) directoryOp_simulates ops start legal
  simp only at size maps
  refine ⟨d, disk', _, _, rfl, run, size, maps.find, ?_, ?_, ?_⟩
  · intro name newSector low high
    have full : (∀ i < tableSize, d.inUse i = true) ↔ ¬d.HasFree := by
      unfold HasFree
      rw [size]
      simp
    rw [full, maps.full_iff]
    rcases maps.add_answer name low high with ⟨refused, run⟩ | ⟨taken, d', run, -⟩
    · simp [run, refused]
    · simp [run, taken]
  · intro name
    rcases maps.remove_answer name with ⟨there, d', run, -⟩ | ⟨missing, run⟩
    · simp [run, there]
    · simp [run, missing]
  · rw [← size]
    exact maps.unique

/-- Two names with the same first nine characters, in a table that is full after one. -/
def longName (last : Char) : Buf :=
  cString ['d', 'i', 'r', 'e', 'c', 't', 'o', 'r', 'y', last]

theorem directory_run_maps_long_names :
    ∃ d disk', (component ⟨OpenFile.twoSectors, 0⟩ 1).run
        [.add (longName '1') 5, .add (longName '2') 6, .writeBack (fun _ => 9),
          .remove (longName '2'), .find (longName '1'), .fetchFrom, .find (longName '3')]
        (Directory.new (fun _ => 255) 1, fun _ _ => 7) =
      some ([.done true, .done false, .none, .done true, .sector (-1), .none, .sector 5],
        d, disk') ∧ d.find (longName '1') = 5 := by
  have fits : Fits ⟨OpenFile.twoSectors, 0⟩ 1 := ⟨OpenFile.twoSectors_valid, by decide +kernel⟩
  have small : -2147483648 ≤ (5 : Int) ∧ (5 : Int) ≤ 2147483647 := by decide
  have small' : -2147483648 ≤ (6 : Int) ∧ (6 : Int) ≤ 2147483647 := by decide
  obtain ⟨d, disk', answers, t, spec, run, -, found, -⟩ :=
    directory_run_maps (fun _ => 255) 1 ⟨OpenFile.twoSectors, 0⟩ (fun _ _ => 7)
      [.add (longName '1') 5, .add (longName '2') 6, .writeBack (fun _ => 9),
        .remove (longName '2'), .find (longName '1'), .fetchFrom, .find (longName '3')]
      ⟨small, fun _ _ _ => ⟨small', fun _ _ _ => ⟨fits, fun _ _ _ => ⟨trivial, fun _ _ _ =>
        ⟨trivial, fun _ _ _ => ⟨⟨fits, by decide +kernel⟩, fun _ _ _ => ⟨trivial, fun _ _ _ =>
          trivial⟩⟩⟩⟩⟩⟩⟩
  have answered : answers =
      [.done true, .done false, .none, .done true, .sector (-1), .none, .sector 5] := by
    apply (congrArg Prod.fst spec).symm.trans
    decide +kernel
  have current : t.current.lookup (key (longName '1')) = some 5 := by
    apply (congrArg (fun result => result.2.current.lookup (key (longName '1'))) spec).symm.trans
    decide +kernel
  rw [answered] at run
  refine ⟨d, disk', run, ?_⟩
  rw [found, current]
  rfl

end Directory

end NachOS.Filesys
