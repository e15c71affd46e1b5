import NachOS.Filesys.DirectoryMap

/-!
# Listing a directory (filesys/directory.cc:128-174)

`Directory::List` prints the name of each entry in use up to its NUL. `Add` copies at most
`FileNameMaxLen` bytes of a name, so that the last byte of `name[FileNameMaxLen + 1]` stays
what it was in the heap when the table was allocated.
-/
namespace NachOS.Filesys
open NachOS.Lib NachOS.Library

/-- `printf("%s")` of a string: the bytes up to the NUL, which has to be one of the `room`
bytes that the object has from there on. -/
def printString : Nat → Buf → Exec (List Byte)
  | 0, _ => .error .outOfBounds
  | room + 1, text =>
    if text 0 = 0 then .ok []
    else do
      let rest ← printString room fun k => text (k + 1)
      .ok (text 0 :: rest)

namespace Directory

/-- The loop of `Directory::List` over the entries still to come: the lines it prints. -/
def listFrom (d : Directory) : List Nat → Exec (List (List Byte))
  | [] => .ok []
  | i :: rest =>
    if d.inUse i then do
      let line ← printString (EntrySize * d.tableSize - (EntrySize * i + 8)) (d.name i)
      let lines ← listFrom d rest
      .ok (line :: lines)
    else listFrom d rest

/-- `Directory::List`. -/
def list (d : Directory) : Exec (List (List Byte)) := d.listFrom (List.range d.tableSize)

/-- The entry that `Add` takes. -/
def freeIndex (d : Directory) : Option Nat := (List.range d.tableSize).find? fun i => !d.inUse i

end Directory

section Strings

variable {name : Buf} {n room : Nat}

theorem chars_length_le (n : Nat) (name : Buf) : (chars n name).length ≤ n := by
  induction n generalizing name with
  | zero => exact Nat.le_refl 0
  | succ n ih =>
    rw [chars_succ]
    split
    · exact Nat.zero_le _
    · exact Nat.succ_le_succ (ih _)

/-- Fewer characters than asked for: there is a NUL behind them. -/
theorem chars_stop (short : (chars n name).length < n) : name (chars n name).length = 0 := by
  induction n generalizing name with
  | zero => cases short
  | succ n ih =>
    rw [chars_succ] at short ⊢
    split
    next zero => exact zero
    next first =>
      rw [if_neg first] at short
      have behind := ih (Nat.lt_of_succ_lt_succ short)
      exact behind

theorem chars_nonzero {k : Nat} (hk : k < (chars n name).length) : name k ≠ 0 := by
  induction n generalizing name k with
  | zero => cases hk
  | succ n ih =>
    rw [chars_succ] at hk
    split at hk
    next zero => cases hk
    next first =>
      cases k with
      | zero => exact first
      | succ k =>
        have behind := ih (Nat.lt_of_succ_lt_succ hk)
        exact behind

/-- The characters are printed if a NUL follows them. -/
theorem printString_chars (inside : (chars n name).length < room)
    (stop : name (chars n name).length = 0) :
    printString room name = .ok (chars n name) := by
  induction n generalizing name room with
  | zero =>
    cases room with
    | zero => cases inside
    | succ room => exact if_pos stop
  | succ n ih =>
    cases room with
    | zero => cases inside
    | succ room =>
      rw [chars_succ] at inside stop ⊢
      rw [printString]
      by_cases zero : name 0 = 0
      · rw [if_pos zero, if_pos zero]
      · rw [if_neg zero] at inside stop ⊢
        rw [if_neg zero, ih (Nat.lt_of_succ_lt_succ inside) stop, Exec.ok_bind]

/-- A line is at least as long as the string has bytes without a NUL among them. -/
theorem le_length_of_printString {line : List Byte} (printed : printString room name = .ok line)
    (nonzero : ∀ k < n, name k ≠ 0) : n ≤ line.length := by
  induction n generalizing name room line with
  | zero => exact Nat.zero_le _
  | succ n ih =>
    cases room with
    | zero => cases printed
    | succ room =>
      rw [printString, if_neg (nonzero 0 (Nat.succ_pos n))] at printed
      obtain ⟨rest, behind, same⟩ := Exec.bind_eq_ok.mp printed
      cases same
      have longer := ih behind fun k hk => nonzero (k + 1) (Nat.succ_lt_succ hk)
      exact Nat.succ_le_succ longer

end Strings

namespace Directory

variable {d d' : Directory} {f : SectorMap} {name : Buf} {i : Nat}

/-- `List` prints each of the names once, and nothing else. -/
def Prints (d : Directory) (names : Finset (List Byte)) : Prop :=
  ∃ lines, d.list = .ok lines ∧ lines.Nodup ∧ lines.toFinset = names

/-- The byte behind a name that fills its field is a NUL. -/
def Terminated (d : Directory) : Prop :=
  ∀ i < d.tableSize, d.inUse i = true → (key (d.name i)).length = FileNameMaxLen →
    d.name i FileNameMaxLen = 0

theorem printString_name (terminated : d.Terminated) (hi : i < d.tableSize)
    (used : d.inUse i = true) :
    printString (EntrySize * d.tableSize - (EntrySize * i + 8)) (d.name i) =
      .ok (key (d.name i)) := by
  have bound := chars_length_le FileNameMaxLen (d.name i)
  apply printString_chars
  · unfold EntrySize FileNameMaxLen at *
    omega
  · by_cases short : (key (d.name i)).length < FileNameMaxLen
    · exact chars_stop short
    · have long : (key (d.name i)).length = FileNameMaxLen := Nat.le_antisymm bound (by omega)
      have last := terminated i hi used long
      rw [← long] at last
      exact last

theorem listFrom_terminated (terminated : d.Terminated) {entries : List Nat}
    (inside : ∀ i ∈ entries, i < d.tableSize) :
    d.listFrom entries = .ok ((entries.filter fun i => d.inUse i).map fun i => key (d.name i)) := by
  induction entries with
  | nil => rfl
  | cons i rest ih =>
    have here := inside i List.mem_cons_self
    have later := ih fun j hj => inside j (List.mem_cons_of_mem i hj)
    rw [listFrom]
    by_cases used : d.inUse i = true
    · rw [if_pos used, printString_name terminated here used, Exec.ok_bind, later, Exec.ok_bind,
        List.filter_cons_of_pos used, List.map_cons]
    · rw [if_neg used, later, List.filter_cons_of_neg used]

/-- What is printed for an entry in use is one of the lines. -/
theorem mem_of_listFrom {entries : List Nat} {lines : List (List Byte)}
    (printed : d.listFrom entries = .ok lines) (member : i ∈ entries) (used : d.inUse i = true) :
    ∃ line ∈ lines,
      printString (EntrySize * d.tableSize - (EntrySize * i + 8)) (d.name i) = .ok line := by
  induction entries generalizing lines with
  | nil => cases member
  | cons j rest ih =>
    rw [listFrom] at printed
    by_cases usedj : d.inUse j = true
    · rw [if_pos usedj] at printed
      obtain ⟨line, first, printed⟩ := Exec.bind_eq_ok.mp printed
      obtain ⟨others, later, same⟩ := Exec.bind_eq_ok.mp printed
      cases same
      rcases List.mem_cons.mp member with rfl | member
      · exact ⟨line, List.mem_cons_self, first⟩
      · obtain ⟨found, there, text⟩ := ih later member
        exact ⟨found, List.mem_cons_of_mem line there, text⟩
    · rw [if_neg usedj] at printed
      rcases List.mem_cons.mp member with rfl | member
      · exact absurd used usedj
      · exact ih printed member

/-- `List` is right exactly when every name that fills its field ends there. -/
theorem prints_iff (maps : d.Maps f) : d.Prints f.keys ↔ d.Terminated := by
  constructor
  · rintro ⟨lines, printed, -, same⟩ i hi used long
    by_contra last
    obtain ⟨line, member, text⟩ := mem_of_listFrom printed (List.mem_range.mpr hi) used
    have nonzero : ∀ k < FileNameMaxLen + 1, d.name i k ≠ 0 := by
      intro k hk
      rcases Nat.lt_succ_iff_lt_or_eq.mp hk with before | rfl
      · exact chars_nonzero (by rw [← long] at before; exact before)
      · exact last
    have longer := le_length_of_printString text nonzero
    rw [← List.mem_toFinset, same, Finmap.mem_keys, maps.mem_iff] at member
    obtain ⟨j, -, -, rfl⟩ := member
    have bound := chars_length_le FileNameMaxLen (d.name j)
    exact absurd (Nat.le_trans longer bound) (Nat.not_succ_le_self _)
  · intro terminated
    refine ⟨_, listFrom_terminated terminated fun i hi => List.mem_range.mp hi, ?_, ?_⟩
    · apply List.Nodup.map_on _ (List.nodup_range.filter _)
      intro i hi j hj same
      simp only [List.mem_filter, List.mem_range] at hi hj
      exact maps.unique i hi.1 j hj.1 hi.2 hj.2 same
    · ext text
      rw [Finmap.mem_keys, maps.mem_iff]
      simp [and_assoc]

end Directory

/-- The memory at a name holds these characters and a NUL. -/
def Spelled (name : Buf) (text : List Byte) : Prop :=
  0 ∉ text ∧ (∀ k < text.length, name k = text.getD k 0) ∧ name text.length = 0

theorem Spelled.chars {name : Buf} {text : List Byte} (spelled : Spelled name text) {n : Nat}
    (short : text.length ≤ n) : chars n name = text := by
  obtain ⟨nonzero, same, last⟩ := spelled
  induction n generalizing name text with
  | zero =>
    rw [List.length_eq_zero_iff.mp (Nat.le_zero.mp short)]
    rfl
  | succ n ih =>
    rw [chars_succ]
    cases text with
    | nil => exact if_pos last
    | cons c text =>
      have first : name 0 = c := same 0 (Nat.succ_pos _)
      rw [List.mem_cons, not_or] at nonzero
      rw [if_neg (by rw [first]; exact Ne.symm nonzero.1), first]
      rw [ih (Nat.le_of_succ_le_succ short) nonzero.2
        (fun k hk => same (k + 1) (Nat.succ_lt_succ hk)) last]

/-- A call of `Add` or `Remove` with the memory at the name and the text in it. -/
inductive NameOp where
  | add (name : Buf) (text : List Byte) (newSector : Int)
  | remove (name : Buf) (text : List Byte)

namespace NameOp
open Directory

def step (op : NameOp) (d : Directory) : Directory :=
  match op with
  | add name _ newSector => (d.add name newSector).2
  | remove name _ => (d.remove name).2

/-- The names that are there after the call. -/
def names (tableSize : Nat) (op : NameOp) (s : Finset (List Byte)) : Finset (List Byte) :=
  match op with
  | add _ text _ => if text ∈ s ∨ s.card = tableSize then s else insert text s
  | remove _ text => s.erase text

/-- The names have 1 to `FileNameMaxLen` characters. -/
def legal (op : NameOp) : Prop :=
  match op with
  | add name text newSector =>
    Spelled name text ∧ 1 ≤ text.length ∧ text.length ≤ FileNameMaxLen ∧
      -2147483648 ≤ newSector ∧ newSector ≤ 2147483647
  | remove name text => Spelled name text ∧ 1 ≤ text.length ∧ text.length ≤ FileNameMaxLen

/-- A new name that fills its field goes to an entry whose last byte is a NUL. -/
def Ends (op : NameOp) (d : Directory) : Prop :=
  match op with
  | add name text _ => text.length = FileNameMaxLen → ¬d.Holds name →
      ∀ i, d.freeIndex = some i → d.name i FileNameMaxLen = 0
  | remove _ _ => True

def run (ops : List NameOp) (d : Directory) : Directory := ops.foldl (fun d op => op.step d) d

/-- The names that were added and not removed. -/
def namesRun (tableSize : Nat) (ops : List NameOp) (s : Finset (List Byte)) :
    Finset (List Byte) :=
  ops.foldl (fun s op => op.names tableSize s) s

end NameOp

namespace Directory
open NameOp

variable {d d' : Directory} {f : SectorMap} {name : Buf} {i : Nat} {s : Finset (List Byte)}
  {tableSize : Nat}

/-- The directory has the names of `s`. -/
def Names (tableSize : Nat) (d : Directory) (s : Finset (List Byte)) : Prop :=
  d.tableSize = tableSize ∧ ∃ f, d.Maps f ∧ f.keys = s

theorem Names.prints_iff (names : Names tableSize d s) : d.Prints s ↔ d.Terminated := by
  obtain ⟨-, f, maps, rfl⟩ := names
  exact Directory.prints_iff maps

theorem Names.step (names : Names tableSize d s) {op : NameOp} (legal : op.legal) :
    Names tableSize (op.step d) (op.names tableSize s) := by
  obtain ⟨rfl, f, maps, rfl⟩ := names
  cases op with
  | add name text newSector =>
    obtain ⟨spelled, -, short, low, high⟩ := legal
    have text_key : key name = text := spelled.chars short
    rcases maps.add_answer name low high with ⟨refused, run⟩ | ⟨taken, d', run, size, maps'⟩
    · rw [text_key] at refused
      simp only [NameOp.step, run, NameOp.names, Finmap.mem_keys, if_pos refused]
      exact ⟨rfl, f, maps, rfl⟩
    · rw [text_key] at taken maps'
      simp only [NameOp.step, run, NameOp.names, Finmap.mem_keys, if_neg taken]
      refine ⟨size, _, maps', ?_⟩
      ext other
      rw [Finmap.mem_keys, Finmap.mem_insert, Finset.mem_insert, Finmap.mem_keys]
  | remove name text =>
    obtain ⟨spelled, -, short⟩ := legal
    have text_key : key name = text := spelled.chars short
    rcases maps.remove_answer name with ⟨there, d', run, size, maps'⟩ | ⟨missing, run⟩
    · rw [text_key] at maps'
      simp only [NameOp.step, run, NameOp.names]
      exact ⟨size, _, maps', Finmap.keys_erase text f⟩
    · rw [text_key, ← Finmap.mem_keys] at missing
      simp only [NameOp.step, run, NameOp.names, Finset.erase_eq_of_notMem missing]
      exact ⟨rfl, f, maps, rfl⟩

theorem Names.run {ops : List NameOp} (names : Names tableSize d s)
    (legal : ∀ op ∈ ops, op.legal) :
    Names tableSize (NameOp.run ops d) (namesRun tableSize ops s) := by
  induction ops generalizing d s with
  | nil => exact names
  | cons op ops ih =>
    have first := names.step (legal op List.mem_cons_self)
    exact ih first fun other member => legal other (List.mem_cons_of_mem op member)

theorem add_refused (refused : d.Holds name ∨ d.freeIndex = none) (newSector : Int) :
    d.add name newSector = (false, d) := by
  unfold Directory.add
  by_cases holds : d.Holds name
  · rw [if_pos (findIndex_isSome_iff.mpr holds)]
  · rw [if_neg (by rw [findIndex_isSome_iff]; exact holds)]
    have full := refused.resolve_left holds
    unfold freeIndex at full
    rw [full]

theorem add_taken (fresh : ¬d.Holds name) (free : d.freeIndex = some i) (newSector : Int) :
    d.add name newSector = (true, ((d.setInUse i 1).setName i name).setSector i newSector) := by
  unfold Directory.add
  rw [if_neg (by rw [findIndex_isSome_iff]; exact fresh)]
  unfold freeIndex at free
  rw [free]

/-- The last byte of a name field is written by no call. -/
theorem last_byte_kept (newSector : Int) (j : Nat) :
    (((d.setInUse i 1).setName i name).setSector i newSector).name j FileNameMaxLen =
      d.name j FileNameMaxLen := by
  calc (((d.setInUse i 1).setName i name).setSector i newSector).name j FileNameMaxLen
      = ((d.setInUse i 1).setName i name).name j FileNameMaxLen :=
        setWord_outside (by unfold EntrySize FileNameMaxLen; omega)
    _ = (d.setInUse i 1).name j FileNameMaxLen :=
        blit_outside (by unfold EntrySize FileNameMaxLen; omega)
    _ = d.name j FileNameMaxLen :=
        Function.update_of_ne (by unfold EntrySize FileNameMaxLen; omega) _ _

theorem terminated_remove (terminated : d.Terminated) (name : Buf) :
    (d.remove name).2.Terminated := by
  unfold Directory.remove
  cases d.findIndex name with
  | none => exact terminated
  | some i =>
    intro j hj used long
    rw [key_setInUse] at long
    have last : (d.setInUse i 0).name j FileNameMaxLen = d.name j FileNameMaxLen :=
      Function.update_of_ne (by unfold EntrySize FileNameMaxLen; omega) _ _
    rw [setInUse_inUse] at used
    by_cases here : j = i
    · simp [here] at used
    · rw [if_neg here] at used
      rw [last]
      exact terminated j hj used long

theorem terminated_add_iff (terminated : d.Terminated)
    (free : d.freeIndex = some i) (newSector : Int) :
    (((d.setInUse i 1).setName i name).setSector i newSector).Terminated ↔
      ((key name).length = FileNameMaxLen → d.name i FileNameMaxLen = 0) := by
  have inside : i < d.tableSize := List.mem_range.mp (List.mem_of_find?_eq_some free)
  have filled : d.Filled i name (((d.setInUse i 1).setName i name).setSector i newSector) :=
    filled_of_set name newSector
  constructor
  · intro after long
    rw [← last_byte_kept newSector]
    apply after i inside
    · simp
    · rw [filled.key_new]
      exact long
  · intro last j hj used long
    rw [last_byte_kept]
    by_cases here : j = i
    · subst here
      rw [filled.key_new] at long
      exact last long
    · rw [filled.key_other hj here] at long
      simp only [setSector_inUse, setName_inUse, setInUse_inUse, if_neg here] at used
      exact terminated j hj used long

/-- A call keeps the fields terminated exactly when it ends its name. -/
theorem terminated_step_iff (terminated : d.Terminated) {op : NameOp} (legal : op.legal) :
    (op.step d).Terminated ↔ op.Ends d := by
  cases op with
  | remove name text => exact iff_of_true (terminated_remove terminated name) trivial
  | add name text newSector =>
    have text_key : key name = text := legal.1.chars legal.2.2.1
    simp only [NameOp.step, Ends]
    by_cases holds : d.Holds name
    · rw [add_refused (.inl holds)]
      exact iff_of_true terminated fun _ fresh => absurd holds fresh
    · cases free : d.freeIndex with
      | none =>
        rw [add_refused (.inr free)]
        refine iff_of_true terminated fun _ _ i found => ?_
        cases found
      | some i =>
        rw [add_taken holds free, terminated_add_iff terminated free, text_key]
        constructor
        · intro last long _ j found
          cases found
          exact last long
        · intro last long
          exact last long holds i rfl

theorem new_terminated (heap : Buf) (tableSize : Nat) : (new heap tableSize).Terminated := by
  intro i hi used
  have unused : (new heap tableSize).inUse i = false := new_inUse heap hi
  rw [unused] at used
  cases used

theorem new_names (heap : Buf) (tableSize : Nat) : Names tableSize (new heap tableSize) ∅ :=
  ⟨rfl, ∅, .new heap tableSize, rfl⟩

/-- Every directory of the run is terminated exactly when each call ends its name. -/
theorem run_terminated_iff (terminated : d.Terminated) {ops : List NameOp}
    (legal : ∀ op ∈ ops, op.legal) :
    (∀ before later, ops = before ++ later → (NameOp.run before d).Terminated) ↔
      ∀ before op later, ops = before ++ op :: later → op.Ends (NameOp.run before d) := by
  constructor
  · intro all before op later split
    have here := all before (op :: later) split
    have next := all (before ++ [op]) later (by
      rw [split, List.append_assoc, List.singleton_append])
    have member : op ∈ ops := by
      rw [split]
      exact List.mem_append_right before List.mem_cons_self
    unfold NameOp.run at next
    rw [List.foldl_concat] at next
    exact (terminated_step_iff here (legal op member)).mp next
  · intro ends before
    induction before using List.reverseRecOn with
    | nil => exact fun _ _ => terminated
    | append_singleton before op ih =>
      intro later split
      rw [List.append_assoc, List.singleton_append] at split
      have member : op ∈ ops := by
        rw [split]
        exact List.mem_append_right before List.mem_cons_self
      have here := ih (op :: later) split
      unfold NameOp.run
      rw [List.foldl_concat]
      exact (terminated_step_iff here (legal op member)).mpr (ends before op later split)

/-- `List` prints exactly the names added and not removed, at every point of a run of calls on
a new directory, if and only if a name of `FileNameMaxLen` characters is only ever put into an
entry whose last name byte happens to be a NUL. -/
theorem list_prints_names_iff (heap : Buf) (tableSize : Nat) (ops : List NameOp)
    (legal : ∀ op ∈ ops, op.legal) :
    (∀ before later, ops = before ++ later →
      (NameOp.run before (new heap tableSize)).Prints (namesRun tableSize before ∅)) ↔
    ∀ before op later, ops = before ++ op :: later →
      op.Ends (NameOp.run before (new heap tableSize)) := by
  rw [← run_terminated_iff (new_terminated heap tableSize) legal]
  apply forall_congr'
  intro before
  apply forall_congr'
  intro later
  apply forall_congr'
  intro split
  have allowed : ∀ op ∈ before, op.legal := by
    intro op member
    apply legal
    rw [split]
    exact List.mem_append_left later member
  exact ((new_names heap tableSize).run allowed).prints_iff

/-- The bytes of `directory`, a name that fills its field. -/
def nineBytes : List Byte := [100, 105, 114, 101, 99, 116, 111, 114, 121]

/-- `Add` of a name in memory that is NUL behind it. -/
def addText (text : List Byte) : NameOp := .add (fun k => text.getD k 0) text 5

theorem addText_legal {text : List Byte} (nonzero : 0 ∉ text) (nonempty : 1 ≤ text.length)
    (short : text.length ≤ FileNameMaxLen) : (addText text).legal := by
  refine ⟨⟨nonzero, fun k _ => rfl, ?_⟩, nonempty, short, by decide, by decide⟩
  simp

/-- In a heap of `z` only the first entry has a NUL at the end of its name. -/
theorem list_prints_names_first_entry :
    (NameOp.run [addText nineBytes, addText [102]]
      (new (fun a => if a = 17 then 0 else 122) 2)).Prints {nineBytes, [102]} := by
  have legal : ∀ op ∈ [addText nineBytes, addText [102]], op.legal := by
    intro op member
    simp only [List.mem_cons, List.not_mem_nil, or_false] at member
    rcases member with rfl | rfl
    · exact addText_legal (by decide) (by decide) (by decide)
    · exact addText_legal (by decide) (by decide) (by decide)
  have names : namesRun 2 [addText nineBytes, addText [102]] ∅ = {nineBytes, [102]} := by
    decide +kernel
  rw [← names]
  refine (list_prints_names_iff _ 2 _ legal).mpr ?_ _ [] (List.append_nil _).symm
  intro before op later split
  cases before with
  | nil =>
    cases split
    intro _ _ i found
    have first : (new (fun a => if a = 17 then 0 else 122) 2).freeIndex = some 0 := by
      decide +kernel
    cases first.symm.trans found
    decide +kernel
  | cons _ rest =>
    cases rest with
    | nil =>
      cases split
      intro long
      cases long
    | cons _ rest => simp at split

/-- In a heap of `z` the name is printed with what was behind it. -/
theorem list_prints_leftover :
    (addText nineBytes).legal ∧
      (NameOp.run [addText nineBytes] (new (fun _ => 122) 2)).list =
        .ok [nineBytes ++ [122, 122, 122]] ∧
      ¬(NameOp.run [addText nineBytes] (new (fun _ => 122) 2)).Prints
        (namesRun 2 [addText nineBytes] ∅) := by
  have printed : (NameOp.run [addText nineBytes] (new (fun _ => 122) 2)).list =
      .ok [nineBytes ++ [122, 122, 122]] := by decide +kernel
  refine ⟨addText_legal (by decide) (by decide) (by decide), printed, ?_⟩
  rintro ⟨lines, again, -, same⟩
  cases printed.symm.trans again
  revert same
  decide +kernel

end Directory

end NachOS.Filesys
