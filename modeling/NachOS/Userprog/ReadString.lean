import NachOS.Userprog.AddrSpace
import NachOS.Userprog.ExceptionHandler

/-!
# Lines read into user memory (userprog/exception.cc:199-212, userprog/ksyscall.h:28-71,164-180)

`SC_ReadString` runs three loops one after another: `User2System` copies the old contents
of the buffer up to a NUL, `SysReadString` clears the copy and fills it with a line, and
`System2User` copies it back up to and including a NUL. What was in user memory before the
call is overwritten by the line and, if the line is shorter than the buffer, by one NUL.

Every byte of the user's buffer has to be mapped. No two virtual addresses lead to the same
byte of main memory, which holds for every address space that `AddrSpace` makes.
-/
namespace NachOS.Userprog
open NachOS.Lib NachOS.Mips

section Line

/-- The characters before the first newline or CTRL-A. -/
def typedLine (typed : List Byte) : List Byte := typed.takeWhile fun ch => ch ≠ 1 && ch ≠ 10

variable {typed : List Byte} {room : Nat}

/-- How many characters a line takes from the console: those that are stored, and the one
that ends the line if there is room left. -/
def lineLength (typed : List Byte) (room : Nat) : Nat :=
  if (typedLine typed).length < room then (typedLine typed).length + 1 else room

theorem typedLine_cons {ch : Byte} (ctrlA : ch ≠ 1) (newline : ch ≠ 10) (typed : List Byte) :
    typedLine (ch :: typed) = ch :: typedLine typed :=
  List.takeWhile_cons_of_pos (by simpa using ⟨ctrlA, newline⟩)

theorem lineLength_cons {ch : Byte} (ctrlA : ch ≠ 1) (newline : ch ≠ 10) (typed : List Byte)
    (room : Nat) : lineLength (ch :: typed) (room + 1) = lineLength typed room + 1 := by
  unfold lineLength
  rw [typedLine_cons ctrlA newline, List.length_cons]
  split <;> split <;> omega

/-- The loop of `SysReadString` on characters other than `EOF`. -/
theorem readLine_typed (later : List Byte) (chars : ∀ ch ∈ typed, ch ≠ EOF)
    (enough : room ≤ (typedLine typed).length ∨ (typedLine typed).length < typed.length) :
    ∃ ended, readLine (typed ++ later) room =
      .ok ((typedLine typed).take room, ended, typed.drop (lineLength typed room) ++ later) := by
  induction typed generalizing room with
  | nil =>
    have full : room = 0 := by simpa [typedLine] using enough
    rw [full]
    exact ⟨false, by simp [readLine, typedLine, lineLength]⟩
  | cons ch typed ih =>
    cases room with
    | zero => exact ⟨false, by simp [readLine, lineLength]⟩
    | succ room =>
      have char : ch ≠ EOF := chars ch List.mem_cons_self
      rw [List.cons_append, readLine, if_neg char]
      by_cases ctrlA : ch = 1
      · exact ⟨true, by simp [ctrlA, typedLine, lineLength]⟩
      by_cases newline : ch = 10
      · exact ⟨false, by simp [newline, typedLine, lineLength]⟩
      rw [typedLine_cons ctrlA newline, List.length_cons, List.length_cons] at enough
      obtain ⟨ended, read⟩ : ∃ ended, readLine (typed ++ later) room =
          .ok ((typedLine typed).take room, ended, typed.drop (lineLength typed room) ++ later) :=
        ih (fun c hc => chars c (List.mem_cons_of_mem _ hc)) (by omega)
      refine ⟨ended, ?_⟩
      rw [if_neg ctrlA, if_neg newline, read, typedLine_cons ctrlA newline,
        lineLength_cons ctrlA newline]
      rfl

end Line

section Copies

variable {m m' : Memory} {virtAddr : Word} {buffer : Buf} {n : Nat}

/-- Addresses at different offsets from one address are different. -/
theorem add_ofNat_inj {i j : Nat} (hi : i < 2 ^ 32) (hj : j < 2 ^ 32)
    (same : virtAddr + BitVec.ofNat 32 i = virtAddr + BitVec.ofNat 32 j) : i = j := by
  have offsets := congrArg BitVec.toNat ((BitVec.add_right_inj virtAddr).mp same)
  rw [BitVec.toNat_ofNat, BitVec.toNat_ofNat, Nat.mod_eq_of_lt hi, Nat.mod_eq_of_lt hj] at offsets
  exact offsets

/-- A `char` that becomes an `int` and is stored as a byte again. -/
theorem setWidth_signExtend (ch : Byte) : (ch.signExtend 32).setWidth 8 = ch := by
  revert ch
  decide

/-- A buffer of the user: each byte can be read and written. -/
def Writable (m : Memory) (virtAddr : Word) (n : Nat) : Prop :=
  ∀ j < n, ∃ p, m.mmu.physical (virtAddr + BitVec.ofNat 32 j) true = some p

/-- There are no more addresses than bytes of main memory. -/
theorem Writable.le_MemorySize (writable : Writable m virtAddr n) (injective : m.mmu.Injective) :
    n ≤ MemorySize := by
  by_contra more
  have mapped : ∀ j : Fin (MemorySize + 1), ∃ p : Fin MemorySize,
      m.mmu.physical (virtAddr + BitVec.ofNat 32 j) true = some p.val := by
    intro j
    obtain ⟨p, reached⟩ := writable j (by omega)
    exact ⟨⟨p, Mmu.physical_lt reached⟩, reached⟩
  choose place reached using mapped
  have different : Function.Injective place := by
    intro i j same
    have address := injective _ _ _ (reached i) (Mmu.physical_of_writable (same ▸ reached j))
    have size : MemorySize = 16384 := rfl
    exact Fin.ext (add_ofNat_inj (by omega) (by omega) address)
  have count := Fintype.card_le_of_injective place different
  simp only [Fintype.card_fin] at count
  omega

theorem Writable.congr {m' : Memory} (writable : Writable m virtAddr n)
    (same : m'.mmu.cleared = m.mmu.cleared) : Writable m' virtAddr n := by
  intro j hj
  rw [Mmu.physical_congr same]
  exact writable j hj

theorem copyIn_mapped {a : Word}
    (mapped : ∀ j < n, ∃ p, m.mmu.physical (a + BitVec.ofNat 32 j) false = some p) :
    ∃ text m', copyIn m a n = .ok (text, m') := by
  induction n generalizing m a with
  | zero => exact ⟨[], m, rfl⟩
  | succ n ih =>
    obtain ⟨p, first⟩ := mapped 0 (Nat.succ_pos n)
    rw [BitVec.add_zero] at first
    obtain ⟨oneChar, m₁, fetched⟩ := Memory.readMem_mapped first
    unfold copyIn
    rw [access_eq_ok.mpr fetched, Exec.ok_bind]
    dsimp only
    split
    · exact ⟨[], m₁, rfl⟩
    · have later : ∀ j < n, ∃ p, m₁.mmu.physical (a + 1 + BitVec.ofNat 32 j) false = some p := by
        intro j hj
        obtain ⟨p, reached⟩ := mapped (j + 1) (by omega)
        refine ⟨p, ?_⟩
        rw [Mmu.physical_congr (Memory.readMem_byte fetched).2, BitVec.add_assoc,
          BitVec.add_comm 1]
        rw [BitVec.ofNat_add] at reached
        exact reached
      obtain ⟨text, m₂, copied⟩ := ih later
      rw [copied]
      exact ⟨_, _, rfl⟩

/-- `System2User` on a text that goes to `stop`: with a NUL behind it if it is not the
whole buffer. -/
theorem copyOut_bytes {i stop : Nat} (injective : m.mmu.Injective)
    (writable : Writable m virtAddr (i + n)) (small : i + n < 2 ^ 32) (from_ : i ≤ stop)
    (text : ∀ j, i ≤ j → j < stop → buffer j ≠ 0)
    (ends : stop = i + n ∨ stop < i + n ∧ buffer stop = 0) :
    ∃ m', copyOut m virtAddr buffer i n = .ok m' ∧
      (∀ j, i ≤ j → j < i + n → j ≤ stop →
        m'.byteAt (virtAddr + BitVec.ofNat 32 j) = some (buffer j)) ∧
      ∀ a, (∀ j, i ≤ j → j < i + n → j ≤ stop → a ≠ virtAddr + BitVec.ofNat 32 j) →
        m'.byteAt a = m.byteAt a := by
  induction n generalizing m i with
  | zero =>
    refine ⟨m, rfl, ?_, fun a _ => rfl⟩
    intro j low high
    omega
  | succ n ih =>
    obtain ⟨p, reached⟩ := writable i (by omega)
    obtain ⟨m₁, stored⟩ := Memory.writeMem_mapped reached ((buffer i).signExtend 32)
    have store := Memory.writeMem_byteAt injective stored
    have same := (Memory.writeMem_byte stored).choose_spec.2.2
    rw [setWidth_signExtend] at store
    unfold copyOut
    rw [access_eq_ok.mpr stored, Exec.ok_bind]
    by_cases nul : buffer i = 0
    · have here : stop = i := by
        by_contra other
        exact text i le_rfl (by omega) nul
      refine ⟨m₁, if_pos nul, ?_, ?_⟩
      · intro j low high le
        have : j = i := by omega
        rw [this, store, if_pos rfl]
      · intro a outside
        rw [store, if_neg (outside i le_rfl (by omega) (by omega))]
    · have further : i + 1 ≤ stop := by
        rcases ends with full | ⟨_, last⟩
        · omega
        · by_contra other
          have : stop = i := by omega
          rw [this] at last
          exact nul last
      have writable₁ : Writable m₁ virtAddr (i + 1 + n) := by
        rw [Nat.add_right_comm]
        exact writable.congr same
      have rest := ih (injective.congr same) writable₁ (by omega) further
        (fun j low high => text j (by omega) high) (by rw [Nat.add_right_comm]; exact ends)
      obtain ⟨m', copied, bytes, frame⟩ := rest
      refine ⟨m', by rw [if_neg nul, copied], ?_, ?_⟩
      · intro j low high le
        by_cases first : j = i
        · rw [first, frame, store, if_pos rfl]
          intro k lowk highk _ clash
          have := add_ofNat_inj (by omega) (by omega) clash
          omega
        · exact bytes j (by omega) (by omega) le
      · intro a outside
        rw [frame a fun j low high le => outside j (by omega) (by omega) le, store,
          if_neg (outside i le_rfl (by omega) (by omega))]

end Copies

namespace System

variable {s : System} {answers : Answers}

/-- `User2System` on a buffer of the user. -/
theorem user2System_mapped {m : Memory} (injective : m.mmu.Injective) (virtAddr limit : Word)
    (positive : 0 ≤ limit.toInt) (writable : Writable m virtAddr limit.toInt.toNat) :
    ∃ text m', user2System m virtAddr limit = .ok (text, m') ∧ m'.mmu.cleared = m.mmu.cleared ∧
      ∀ a, m'.byteAt a = m.byteAt a := by
  have small := writable.le_MemorySize injective
  have size : MemorySize = 16384 := rfl
  have room : 0 ≤ (limit + 1).toInt := by
    have one : (1 : Word).toInt = 1 := rfl
    have sum := BitVec.toInt_add limit 1
    rw [one, Int.bmod_eq_of_le (by omega) (by omega)] at sum
    omega
  obtain ⟨text, m', copied⟩ := copyIn_mapped fun j hj => by
    obtain ⟨p, reached⟩ := writable j hj
    exact ⟨p, Mmu.physical_of_writable reached⟩
  obtain ⟨mmu, same⟩ := copyIn_reaches copied
  refine ⟨text, m', ?_, mmu, ?_⟩
  · unfold user2System
    rw [check_true room]
    exact copied
  · intro a
    unfold Memory.byteAt
    rw [Mmu.physical_congr mmu, same]

/-- What `SC_ReadString` leaves behind when `k` characters of the line go into the `len`
bytes from `r4` on. -/
structure LineRead (s s' : System) (typed later : List Byte) (len k : Nat) : Prop where
  text : ∀ j < k, s'.userByte (s.readRegister 4 + BitVec.ofNat 32 j) = typed[j]?
  nul : k < len → s'.userByte (s.readRegister 4 + BitVec.ofNat 32 k) = some 0
  frame : ∀ a, (∀ j < len, a ≠ s.readRegister 4 + BitVec.ofNat 32 j) → s'.userByte a = s.userByte a
  consumed : s'.input = typed.drop (if k < len then k + 1 else k) ++ later

theorem lineLength_eq (typed : List Byte) (len : Nat) :
    lineLength typed len = if min len (typedLine typed).length < len then
      min len (typedLine typed).length + 1 else min len (typedLine typed).length := by
  unfold lineLength
  split <;> split <;> omega

/-- The buffer of `SysReadString`: the characters of the line, then zeros. -/
theorem bufferOf_line (typed : List Byte) {len j : Nat} (hj : j < min len (typedLine typed).length) :
    some (Stub.bufferOf ((typedLine typed).take len) j) = typed[j]? := by
  have bound : j < (typedLine typed).length := by omega
  have whole : (typedLine typed)[j]? = typed[j]? := by
    obtain ⟨rest, split⟩ : typedLine typed <+: typed := List.takeWhile_prefix _
    exact (List.getElem?_append_left bound).symm.trans (congrArg (fun cs => cs[j]?) split)
  rw [← whole]
  unfold Stub.bufferOf
  rw [List.getD_eq_getElem?_getD, List.getElem?_take_of_lt (by omega),
    List.getElem?_eq_getElem bound]
  rfl

theorem bufferOf_behind_line (typed : List Byte) {len : Nat} :
    Stub.bufferOf ((typedLine typed).take len) (min len (typedLine typed).length) = 0 := by
  unfold Stub.bufferOf
  rw [List.getD_eq_getElem?_getD, List.getElem?_eq_none (by rw [List.length_take])]
  rfl

/-- `System2User` on a line that was typed. -/
theorem copyOut_line {m : Memory} {virtAddr : Word} {typed : List Byte} {len : Nat}
    (injective : m.mmu.Injective) (writable : Writable m virtAddr len)
    (chars : ∀ ch ∈ typed, ch ≠ 0) :
    ∃ m', copyOut m virtAddr (Stub.bufferOf ((typedLine typed).take len)) 0 len = .ok m' ∧
      (∀ j < min len (typedLine typed).length,
        m'.byteAt (virtAddr + BitVec.ofNat 32 j) = typed[j]?) ∧
      (min len (typedLine typed).length < len → m'.byteAt
        (virtAddr + BitVec.ofNat 32 (min len (typedLine typed).length)) = some 0) ∧
      ∀ a, (∀ j < len, a ≠ virtAddr + BitVec.ofNat 32 j) → m'.byteAt a = m.byteAt a := by
  have small := writable.le_MemorySize injective
  have memory : MemorySize = 16384 := rfl
  have nonzero : ∀ j, 0 ≤ j → j < min len (typedLine typed).length →
      Stub.bufferOf ((typedLine typed).take len) j ≠ 0 := by
    intro j _ hj
    exact chars _ (List.mem_of_getElem? (bufferOf_line typed hj).symm)
  have ends : min len (typedLine typed).length = 0 + len ∨
      min len (typedLine typed).length < 0 + len ∧
        Stub.bufferOf ((typedLine typed).take len) (min len (typedLine typed).length) = 0 := by
    rcases Nat.lt_or_ge (min len (typedLine typed).length) len with shorter | full
    · exact .inr ⟨by omega, bufferOf_behind_line typed⟩
    · left
      omega
  obtain ⟨m', copied, text, frame⟩ := copyOut_bytes injective
    (show Writable m virtAddr (0 + len) from (Nat.zero_add len).symm ▸ writable) (by omega)
    (Nat.zero_le _) nonzero ends
  refine ⟨m', copied, ?_, ?_, ?_⟩
  · intro j hj
    exact (text j (Nat.zero_le j) (by omega) (by omega)).trans (bufferOf_line typed hj)
  · intro shorter
    exact (text _ (Nat.zero_le _) (by omega) le_rfl).trans
      (congrArg some (bufferOf_behind_line typed))
  · exact fun a outside => frame a fun j _ hj _ => outside j (by omega)

end System

/-- `SC_ReadString` on a buffer of `len` bytes that can be written, while enough
characters other than 0 and 0xFF come for it to return: a newline, a CTRL-A, or `len`
others. -/
theorem readString_exact (s : System) (answers : Answers) (typed later : List Byte) (len : Nat)
    (number : (s.readRegister 2).toInt = 48) (size : (s.readRegister 5).toInt = len)
    (positive : 0 < len) (injective : s.memory.mmu.Injective)
    (writable : Writable s.memory (s.readRegister 4) len) (stream : s.input = typed ++ later)
    (chars : ∀ ch ∈ typed, ch ≠ 0 ∧ ch ≠ EOF)
    (enough : len ≤ (typedLine typed).length ∨ (typedLine typed).length < typed.length) :
    ∃ s', s.exceptionHandler answers .syscall = .ok s' ∧
      s.LineRead s' typed later len (min len (typedLine typed).length) := by
  have found : callNumbers.lookup (s.readRegister 2).toInt = some .readString := by
    rw [number]
    rfl
  have len_eq : (s.readRegister 5).toInt.toNat = len := by omega
  obtain ⟨old, m, fetched, mmu, bytes⟩ :=
    System.user2System_mapped injective (s.readRegister 4) (s.readRegister 5) (by omega)
      (len_eq ▸ writable)
  obtain ⟨ended, read⟩ := readLine_typed later (fun ch h => (chars ch h).2) enough
  obtain ⟨m', copied, text, nul, frame⟩ := System.copyOut_line (injective.congr mmu)
    (writable.congr mmu) fun ch h => (chars ch h).1
  refine ⟨System.increasePC
    { s with memory := m', input := typed.drop (lineLength typed len) ++ later }, ?_, ?_⟩
  · unfold System.exceptionHandler
    dsimp only
    rw [found]
    unfold System.syscallBody
    dsimp only
    rw [fetched, Exec.ok_bind]
    dsimp only
    rw [stream, len_eq, read, Exec.ok_bind]
    dsimp only
    unfold system2User
    rw [len_eq, copied]
    rfl
  · constructor
    · exact text
    · exact nul
    · intro a outside
      exact (frame a outside).trans (bytes a)
    · rw [← System.lineLength_eq]
      rfl

/-- The page table of `AddrSpace` maps every address to itself. -/
theorem physical_identity {n : Nat} (a : Word) (writing : Bool) {p : Nat}
    (reached : (Mmu.pageTable ((List.range n).map identityEntry)).physical a writing = some p) :
    p = a.toNat := by
  obtain ⟨i, entry, maps, rfl⟩ := Mmu.physical_eq_some.mp reached
  have own : i = a.toNat / PageSize := by
    have found := maps.found
    simp only [Mmu.find] at found
    split at found
    · cases found
    · split at found
      · exact (Except.ok.inj found).symm
      · cases found
  have frame : entry.physicalPage.toNat = a.toNat / PageSize := by
    have listed := maps.listed
    rw [own, Mmu.entries, List.getElem?_map, Option.map_eq_some_iff] at listed
    obtain ⟨page, number, rfl⟩ := listed
    have page_eq : page = a.toNat / PageSize := by
      obtain ⟨_, rfl⟩ := List.getElem?_eq_some_iff.mp number
      exact List.getElem_range _
    have small : page < 2 ^ 32 := by
      have := a.isLt
      have := Nat.div_le_self a.toNat PageSize
      omega
    rw [← page_eq]
    exact Nat.mod_eq_of_lt small
  rw [frame, Nat.mul_comm, Nat.div_add_mod]

theorem identity_injective (n : Nat) :
    (Mmu.pageTable ((List.range n).map identityEntry)).Injective := by
  intro a b p first second
  exact BitVec.eq_of_toNat_eq
    ((physical_identity a true first).symm.trans (physical_identity b false second))

/-- `ReadString` of "Hi" into a buffer of 16 bytes at address 40. -/
theorem readString_exact_short :
    ∃ s', (callingState 48 40 16 0 [72, 105, 10, 33]).exceptionHandler ⟨none, false, 0⟩ .syscall =
        .ok s' ∧
      (callingState 48 40 16 0 [72, 105, 10, 33]).LineRead s' [72, 105, 10] [33] 16 2 := by
  have mapped : ∀ j < 16, ∃ p,
      (programMemory []).mmu.physical (40 + BitVec.ofNat 32 j) true = some p := by
    intro j hj
    refine ⟨40 + j, ?_⟩
    revert j
    decide +kernel
  exact readString_exact (callingState 48 40 16 0 [72, 105, 10, 33]) ⟨none, false, 0⟩
    [72, 105, 10] [33] 16 rfl rfl (by decide) (identity_injective 1) mapped rfl (by decide)
    (by decide)

end NachOS.Userprog
