import NachOS.Userprog.ReadString
import NachOS.Userprog.TwoFiles

/-!
# System calls as a user program makes them (test/start.S:40-240, userprog/syscall.h:21-49)

The stub of a system call puts its number into register 2, leaves the arguments where the
caller has put them, from register 4 on, and returns what it finds in register 2. What a
program can tell of the system afterwards is its view: the bytes at its addresses, the
files and the characters still to come.
-/
namespace NachOS.Userprog
open NachOS.Lib NachOS.Mips NachOS.Filesys

/-- The number in `userprog/syscall.h`. -/
def SystemCall.number : SystemCall → Word
  | .halt => 0
  | .create => 4
  | .remove => 5
  | .openFile => 6
  | .read => 7
  | .write => 8
  | .seek => 9
  | .close => 10
  | .add => 42
  | .readNum => 43
  | .printNum => 44
  | .readChar => 45
  | .printChar => 46
  | .randomNum => 47
  | .readString => 48
  | .printString => 49

/-- What a call that asks the host nothing is given. -/
def Answers.unasked : Answers := ⟨none, false, 0⟩

namespace System

/-- The registers at the `syscall` instruction of a stub. -/
def load (s : System) (call : SystemCall) (arguments : List Word) : System :=
  { s with registers := fun i =>
      if i.val = 2 then call.number
      else if 4 ≤ i.val then (arguments[i.val - 4]?).getD (s.registers i)
      else s.registers i }

/-- A call from the user program: what it returns, and the system after it. -/
def invoke (s : System) (answers : Answers) (call : SystemCall) (arguments : List Word) :
    Call (Word × System) := do
  let s ← (s.load call arguments).exceptionHandler answers .syscall
  .ok (s.readRegister 2, s)

end System

/-- What the user program can tell of the system, and the way its addresses are mapped. -/
structure View where
  mmu : Mmu
  bytes : Word → Option Byte
  files : Stub.Kernel
  input : List Byte

namespace System

def view (s : System) : View := ⟨s.memory.mmu.cleared, s.memory.byteAt, s.files, s.input⟩

/-- The call returns `result` and leaves a system that looks like `v`. -/
def Invokes (s : System) (answers : Answers) (call : SystemCall) (arguments : List Word)
    (result : Word) (v : View) : Prop :=
  ∃ s', s.invoke answers call arguments = .ok (result, s') ∧ s'.view = v

variable {s s' : System} {answers : Answers} {call : SystemCall} {arguments : List Word}

theorem lookup_call (call : SystemCall) : callNumbers.lookup call.number.toInt = some call := by
  cases call <;> rfl

@[simp] theorem load_number : (s.load call arguments).readRegister 2 = call.number := rfl

@[simp] theorem load_first (a : Word) (rest : List Word) :
    (s.load call (a :: rest)).readRegister 4 = a := rfl

@[simp] theorem load_second (a b : Word) (rest : List Word) :
    (s.load call (a :: b :: rest)).readRegister 5 = b := rfl

@[simp] theorem load_memory : (s.load call arguments).memory = s.memory := rfl

@[simp] theorem load_files : (s.load call arguments).files = s.files := rfl

@[simp] theorem load_input : (s.load call arguments).input = s.input := rfl

theorem increasePC_result (s : System) : s.increasePC.readRegister 2 = s.readRegister 2 := by
  obtain ⟨-, -, -, others⟩ := s.increasePC_registers
  exact others ⟨2, by decide⟩ (by decide) (by decide) (by decide)

/-- A call whose handler returns. -/
theorem invokes_of_body (s' : System) {v : View} {result : Word}
    (body : (s.load call arguments).syscallBody answers call = .ok s')
    (returned : s'.readRegister 2 = result) (looks : s'.view = v) :
    s.Invokes answers call arguments result v := by
  refine ⟨s'.increasePC, ?_, looks⟩
  unfold invoke exceptionHandler
  simp only [load_number, lookup_call, body, Exec.ok_bind, increasePC_result, returned]

end System

/-- The text at an address, with a NUL behind it. -/
def StringAt (bytes : Word → Option Byte) (a : Word) (text : List Byte) : Prop :=
  0 ∉ text ∧ (∀ j < text.length, bytes (a + BitVec.ofNat 32 j) = text[j]?) ∧
    bytes (a + BitVec.ofNat 32 text.length) = some 0

section Bytes

variable {m m' : Memory} {a : Word} {ch : Byte} {bytes : Word → Option Byte}

/-- `ReadMem` of a byte that can be read. -/
theorem readMem_byteAt (there : m.byteAt a = some ch) :
    ∃ m', m.readMem a 1 = .ok (ch.signExtend 32, m') ∧ m'.mmu.cleared = m.mmu.cleared ∧
      m'.byteAt = m.byteAt := by
  obtain ⟨p, mapped, value⟩ := Option.map_eq_some_iff.mp there
  obtain ⟨i, entry, maps, place⟩ := Mmu.physical_eq_some.mp mapped
  obtain ⟨read, m', run⟩ := Memory.readMem_mapped mapped
  obtain ⟨same, mmu⟩ := Memory.readMem_byte run
  have value' : read = ch.signExtend 32 := by
    unfold Memory.readMem at run
    rw [Mmu.translate_maps maps] at run
    cases run
    rw [← place, ← value]
  rw [value'] at run
  refine ⟨m', run, mmu, ?_⟩
  funext b
  unfold Memory.byteAt
  rw [Mmu.physical_congr mmu, same]

theorem signExtend_eq_zero (ch : Byte) : ch.signExtend 32 = 0 ↔ ch = 0 := by
  revert ch
  decide

/-- The loop of `User2System` on a string that ends before the limit. -/
theorem copyIn_string {text : List Byte} {limit : Nat} (string : StringAt m.byteAt a text)
    (short : text.length < limit) :
    ∃ m', copyIn m a limit = .ok (text, m') ∧ m'.mmu.cleared = m.mmu.cleared ∧
      m'.byteAt = m.byteAt := by
  induction limit generalizing m a text with
  | zero => cases short
  | succ limit ih =>
    obtain ⟨nonzero, chars, last⟩ := string
    cases text with
    | nil =>
      rw [List.length_nil, BitVec.add_zero] at last
      obtain ⟨m', run, mmu, same⟩ := readMem_byteAt last
      refine ⟨m', ?_, mmu, same⟩
      rw [copyIn, access_eq_ok.mpr run, Exec.ok_bind]
      rfl
    | cons ch text =>
      have first := chars 0 (Nat.succ_pos _)
      rw [BitVec.add_zero] at first
      obtain ⟨m₁, run, mmu, same⟩ := readMem_byteAt first
      rw [List.mem_cons, not_or] at nonzero
      have next : ∀ j, a + 1 + BitVec.ofNat 32 j = a + BitVec.ofNat 32 (j + 1) := by
        intro j
        rw [BitVec.add_assoc, BitVec.add_comm 1, BitVec.ofNat_add]
        rfl
      have tail : StringAt m₁.byteAt (a + 1) text := by
        rw [same]
        refine ⟨nonzero.2, ?_, by rw [next]; exact last⟩
        intro j hj
        rw [next, chars (j + 1) (Nat.succ_lt_succ hj)]
        rfl
      obtain ⟨m', rest, mmu', same'⟩ := ih tail (Nat.lt_of_succ_lt_succ short)
      refine ⟨m', ?_, mmu'.trans mmu, same'.trans same⟩
      have going : ch.signExtend 32 ≠ 0 := fun zero =>
        nonzero.1 ((signExtend_eq_zero ch).mp zero).symm
      rw [copyIn, access_eq_ok.mpr run, Exec.ok_bind]
      simp only [if_neg going, rest, Exec.ok_bind, setWidth_signExtend]

/-- The loop of `User2System` on one byte: the kernel buffer starts with it. -/
theorem copyIn_one (there : m.byteAt a = some ch) :
    ∃ text m', copyIn m a 1 = .ok (text, m') ∧ Stub.bufferOf text 0 = ch ∧
      m'.mmu.cleared = m.mmu.cleared ∧ m'.byteAt = m.byteAt := by
  obtain ⟨m', run, mmu, same⟩ := readMem_byteAt there
  by_cases zero : ch = 0
  · refine ⟨[], m', ?_, zero.symm, mmu, same⟩
    rw [copyIn, access_eq_ok.mpr run, Exec.ok_bind]
    exact if_pos ((signExtend_eq_zero ch).mpr zero)
  · refine ⟨[ch], m', ?_, rfl, mmu, same⟩
    have going : ch.signExtend 32 ≠ 0 := fun nul => zero ((signExtend_eq_zero ch).mp nul)
    rw [copyIn, access_eq_ok.mpr run, Exec.ok_bind]
    simp only [if_neg going, copyIn, Exec.ok_bind, setWidth_signExtend]

/-- The loop of `System2User` on one byte. -/
theorem copyOut_one (injective : m.mmu.Injective) (writable : Writable m a 1) (buffer : Buf) :
    ∃ m', copyOut m a buffer 0 1 = .ok m' ∧ m'.mmu.cleared = m.mmu.cleared ∧
      m'.byteAt = Function.update m.byteAt a (some (buffer 0)) := by
  obtain ⟨p, reached⟩ := writable 0 (Nat.succ_pos 0)
  obtain ⟨m', stored⟩ := Memory.writeMem_mapped reached ((buffer 0).signExtend 32)
  have store := Memory.writeMem_byteAt injective stored
  have same := (Memory.writeMem_byte stored).choose_spec.2.2
  rw [setWidth_signExtend, BitVec.add_zero] at store
  refine ⟨m', ?_, same, ?_⟩
  · rw [copyOut, access_eq_ok.mpr stored, Exec.ok_bind]
    exact ite_self _
  · funext b
    rw [store b, Function.update_apply]

end Bytes

namespace System

variable {s : System} {answers : Answers} {a : Word} {text : List Byte}

/-- `User2System` on a string. -/
theorem user2System_string (string : StringAt s.view.bytes a text) (limit : Word)
    (short : (text.length : Int) < limit.toInt) (room : 0 ≤ (limit + 1).toInt) :
    ∃ m', user2System s.memory a limit = .ok (text, m') ∧
      m'.mmu.cleared = s.memory.mmu.cleared ∧ m'.byteAt = s.memory.byteAt := by
  obtain ⟨m', copied, mmu, same⟩ :=
    copyIn_string (m := s.memory) string (show text.length < limit.toInt.toNat by omega)
  refine ⟨m', ?_, mmu, same⟩
  unfold user2System
  rw [check_true room]
  exact copied

/-- `PrintString` of a text that fits into the kernel buffer. -/
theorem invokes_printString (string : StringAt s.view.bytes a text) (short : text.length < 255) :
    s.Invokes .unasked .printString [a] 49 s.view := by
  have top : (255 : Word).toInt = 255 := rfl
  obtain ⟨m', copied, mmu, same⟩ := user2System_string string 255
    (by rw [top]; omega) (by decide)
  refine invokes_of_body { s.load .printString [a] with
    memory := m', output := s.output ++ text } ?_ rfl ?_
  · simp only [syscallBody, load_first, load_memory, copied, Exec.ok_bind]
    rfl
  · unfold view
    rw [mmu, same]
    rfl

/-- `Open` of a name in user memory. -/
theorem invokes_openFile (string : StringAt s.view.bytes a text) (short : text.length < 32)
    {type : Word} {result : Int} {k : Stub.Kernel}
    (opened : s.files.sysOpen text type.toInt answers.grant = .ok (some result, k)) :
    s.Invokes answers .openFile [a, type] (BitVec.ofInt 32 result) { s.view with files := k } := by
  have top : (BitVec.ofInt 32 Stub.MaxFileLength).toInt = 32 := rfl
  obtain ⟨m', copied, mmu, same⟩ := user2System_string string
    (BitVec.ofInt 32 Stub.MaxFileLength) (by rw [top]; omega) (by decide)
  refine invokes_of_body (writeResult { s.load .openFile [a, type] with
    memory := m', files := k } result) ?_ rfl ?_
  · simp only [syscallBody, load_first, load_second, load_memory, load_files, copied, Exec.ok_bind,
      fileCall, opened, attempt]
    rfl
  · unfold view
    simp only [writeResult]
    rw [mmu, same]
    rfl

/-- `Create` of a name in user memory. -/
theorem invokes_create (string : StringAt s.view.bytes a text) (short : text.length < 32)
    {result : Int} {k : Stub.Kernel}
    (created : s.files.sysCreateFile text answers.grant = .ok (result, k)) :
    s.Invokes answers .create [a] (BitVec.ofInt 32 result) { s.view with files := k } := by
  have top : (BitVec.ofInt 32 Stub.MaxFileLength).toInt = 32 := rfl
  obtain ⟨m', copied, mmu, same⟩ := user2System_string string
    (BitVec.ofInt 32 Stub.MaxFileLength) (by rw [top]; omega) (by decide)
  refine invokes_of_body (writeResult { s.load .create [a] with
    memory := m', files := k } result) ?_ rfl ?_
  · simp only [syscallBody, load_first, load_memory, load_files, copied, Exec.ok_bind,
      fileCall, created, attempt]
    rfl
  · unfold view
    simp only [writeResult]
    rw [mmu, same]
    rfl

theorem invokes_seek {pos id : Word} {result : Int} {k : Stub.Kernel}
    (sought : s.files.sysSeek pos.toInt id.toInt = .ok (result, k)) :
    s.Invokes .unasked .seek [pos, id] (BitVec.ofInt 32 result) { s.view with files := k } := by
  refine invokes_of_body (writeResult { s.load .seek [pos, id] with files := k } result)
    ?_ rfl rfl
  simp only [syscallBody, load_first, load_second, load_files, fileCall, sought, Exec.ok_bind,
    attempt]
  rfl

theorem invokes_close {id : Word} {result : Int} {k : Stub.Kernel}
    (closed : s.files.sysClose id.toInt = .ok (result, k)) :
    s.Invokes .unasked .close [id] (BitVec.ofInt 32 result) { s.view with files := k } := by
  refine invokes_of_body (writeResult { s.load .close [id] with files := k } result)
    ?_ rfl rfl
  simp only [syscallBody, load_first, load_files, fileCall, closed, Exec.ok_bind, attempt]
  rfl

end System

/-- Characters that make up a line: `ReadString` ends at a newline or CTRL-A, and the console
takes 0xFF for the end of its input. -/
def Typable (text : List Byte) : Prop := ∀ ch ∈ text, ch ≠ 0 ∧ ch ≠ 1 ∧ ch ≠ 10 ∧ ch ≠ EOF

theorem Typable.typedLine {text : List Byte} (typable : Typable text) :
    typedLine (text ++ [10]) = text := by
  unfold Userprog.typedLine
  rw [List.takeWhile_append_of_pos]
  · simp
  · intro ch member
    obtain ⟨-, ctrlA, newline, -⟩ := typable ch member
    rw [Bool.and_eq_true]
    exact ⟨decide_eq_true ctrlA, decide_eq_true newline⟩

/-- A line with its newline has no NUL and no end of input in it. -/
theorem Typable.line {text : List Byte} (typable : Typable text) {ch : Byte}
    (member : ch ∈ text ++ [10]) : ch ≠ 0 ∧ ch ≠ EOF := by
  rcases List.mem_append.mp member with member | last
  · exact ⟨(typable ch member).1, (typable ch member).2.2.2⟩
  · rw [List.mem_singleton.mp last]
    decide

namespace View

/-- A buffer of the user. -/
def Writable (v : View) (a : Word) (n : Nat) : Prop :=
  ∀ j < n, ∃ p, v.mmu.physical (a + BitVec.ofNat 32 j) true = some p

end View

namespace System

variable {s : System} {a : Word} {text : List Byte}

theorem view_writable {n : Nat} (writable : s.view.Writable a n) : Writable s.memory a n := by
  intro j hj
  obtain ⟨p, reached⟩ := writable j hj
  exact ⟨p, (Mmu.physical_cleared _ _ _).symm.trans reached⟩

theorem view_injective (injective : s.view.mmu.Injective) : s.memory.mmu.Injective := by
  intro x y p first second
  rw [← Mmu.physical_cleared] at first second
  exact injective x y p first second

/-- The line in the kernel goes to the user's buffer. -/
theorem copyOut_typed {m : Memory} {len : Nat} (injective : m.mmu.Injective)
    (writable : Writable m a len) (typable : Typable text) (short : text.length < len) :
    ∃ m', copyOut m a (Stub.bufferOf (text.take len)) 0 len = .ok m' ∧
      m'.mmu.cleared = m.mmu.cleared ∧ StringAt m'.byteAt a text ∧
      ∀ b, (∀ j < len, b ≠ a + BitVec.ofNat 32 j) → m'.byteAt b = m.byteAt b := by
  have least : min len text.length = text.length := by omega
  obtain ⟨m', copied, stored, nul, frame⟩ :=
    copyOut_line injective writable fun ch member => (typable.line member).1
  rw [typable.typedLine] at copied stored nul
  rw [least] at stored nul
  refine ⟨m', copied, (copyOut_reaches copied).mmu, ⟨?_, ?_, nul short⟩, frame⟩
  · intro zero
    exact (typable 0 zero).1 rfl
  · intro j hj
    rw [stored j hj, List.getElem?_append_left hj]

/-- `ReadString` of a line that was typed. -/
theorem invokes_readString (injective : s.view.mmu.Injective) {len : Word}
    (writable : s.view.Writable a len.toInt.toNat) (typable : Typable text)
    (short : (text.length : Int) < len.toInt) {later : List Byte}
    (typed : s.view.input = text ++ 10 :: later) :
    ∃ bytes, s.Invokes .unasked .readString [a, len] 48 { s.view with bytes, input := later } ∧
      StringAt bytes a text ∧
      ∀ b, (∀ j < len.toInt.toNat, b ≠ a + BitVec.ofNat 32 j) → bytes b = s.view.bytes b := by
  have single := view_injective injective
  have mapped := view_writable writable
  have size : (text ++ [10]).length = text.length + 1 := List.length_append
  obtain ⟨old, m, fetched, mmu, bytes⟩ := user2System_mapped single a len (by omega) mapped
  obtain ⟨ended, read⟩ := readLine_typed later (fun ch member => (typable.line member).2)
    (show len.toInt.toNat ≤ _ ∨ _ by rw [typable.typedLine, size]; omega)
  obtain ⟨m', copied, mmu', string, frame⟩ := copyOut_typed (single.congr mmu) (mapped.congr mmu)
    typable (show text.length < len.toInt.toNat by omega)
  have consumed : (text ++ [10]).drop (lineLength (text ++ [10]) len.toInt.toNat) = [] := by
    unfold lineLength
    rw [typable.typedLine, if_pos (by omega), ← size, List.drop_length]
  rw [typable.typedLine, consumed, List.nil_append, List.append_assoc,
    List.singleton_append] at read
  have input : s.input = text ++ 10 :: later := typed
  refine ⟨m'.byteAt, ?_, string, ?_⟩
  · refine invokes_of_body { s.load .readString [a, len] with memory := m', input := later }
      ?_ rfl ?_
    · simp only [syscallBody, load_first, load_second, load_memory, load_input, fetched,
        Exec.ok_bind, input, read, system2User, copied]
    · unfold view
      simp only [load_files]
      rw [mmu', mmu]
  · intro b outside
    exact (frame b outside).trans (bytes b)

section Transfer

variable {id c : Word} {b : Nat} {f : Stub.OpenFile} {d : Descriptor} {ch : Byte}

/-- `SysRead` on an open file. -/
theorem sysRead_file (isOpen : s.files.OpenAt id b f d) (file : f.type = 0 ∨ f.type = 1)
    (n : Nat) :
    s.sysRead c n id.toInt =
      let data := s.files.host.available d n
      let files := s.files.transferred b f d (d.offset + data.length) s.files.host.contents
      if 0 < data.length then do
        let memory ← system2User s.memory c data.length (Stub.bufferOf data)
        .ok ({ s with files, memory }.writeResult data.length)
      else .ok ({ s with files }.writeResult (-2)) := by
  have range := isOpen.range
  have accepted : ¬ (id.toInt < 2 ∨ id.toInt > MAX_FILE_OPEN) := by omega
  have notOutput : ¬ f.type = 3 := by omega
  have notInput : ¬ f.type = 2 := by omega
  obtain ⟨run, after⟩ := isOpen.ready.read n
  have bound := isOpen.ready.available_le n
  have top : (OFF_MAX : Int) = 2147483647 := rfl
  have start := Stub.OpenFile.Tell_open isOpen.ready.isOpen isOpen.ready.offset
  generalize s.files.host.available d n = data at run after bound
  have moved : int32 ((d.offset : Int) + data.length - d.offset) = data.length := by
    rw [add_sub_cancel_left]
    exact int32_of_range (by omega) (by omega)
  unfold sysRead readObject
  simp only [if_neg accepted, isOpen.slot, attempt, Exec.ok_bind,
    Stub.Kernel.object_eq_ok.mpr isOpen.object, if_neg notOutput, if_neg notInput,
    Stub.OpenFile.getCurrentPos, start, run, after, moved, gt_iff_lt, Int.natCast_pos]
  rfl

/-- `Read(&c, 1, id)` before the end of the file. -/
theorem invokes_read_byte (isOpen : s.files.OpenAt id b f d) (file : f.type = 0 ∨ f.type = 1)
    (injective : s.view.mmu.Injective) (writable : s.view.Writable c 1)
    (there : (s.files.host.contents d.inode)[d.offset]? = some ch) :
    s.Invokes .unasked .read [c, 1, id] 1 { s.view with
      bytes := Function.update s.view.bytes c (some ch)
      files := s.files.transferred b f d (d.offset + 1) s.files.host.contents } := by
  have data : s.files.host.available d 1 = [ch] := by
    obtain ⟨bound, value⟩ := List.getElem?_eq_some_iff.mp there
    unfold Host.available
    rw [List.drop_eq_getElem_cons bound, value]
    rfl
  obtain ⟨m', copied, mmu, bytes⟩ :=
    copyOut_one (view_injective injective) (view_writable writable) (Stub.bufferOf [ch])
  have stored : system2User s.memory c ([ch].length : Nat) (Stub.bufferOf [ch]) = .ok m' := copied
  have loaded : (s.load .read [c, 1, id]).files.OpenAt id b f d := isOpen
  have run := sysRead_file (c := c) loaded file 1
  simp only [load_files, load_memory, data] at run
  have some_read : 0 < [ch].length := Nat.succ_pos 0
  rw [if_pos some_read, stored, Exec.ok_bind] at run
  have body : (s.load .read [c, 1, id]).syscallBody .unasked .read = _ := run
  refine invokes_of_body _ body rfl ?_
  unfold view
  simp only [writeResult]
  rw [mmu, bytes]
  rfl

/-- `Read(&c, 1, id)` at the end of the file leaves `c` as it is. -/
theorem invokes_read_end (isOpen : s.files.OpenAt id b f d) (file : f.type = 0 ∨ f.type = 1)
    (past : (s.files.host.contents d.inode).length ≤ d.offset) :
    s.Invokes .unasked .read [c, 1, id] (-2) { s.view with
      files := s.files.transferred b f d d.offset s.files.host.contents } := by
  have data : s.files.host.available d 1 = [] := by
    unfold Host.available
    rw [List.drop_eq_nil_iff.mpr past]
    rfl
  have loaded : (s.load .read [c, 1, id]).files.OpenAt id b f d := isOpen
  have run := sysRead_file (c := c) loaded file 1
  simp only [load_files, data] at run
  have none_read : ¬ 0 < ([] : List Byte).length := Nat.lt_irrefl 0
  rw [if_neg none_read] at run
  have body : (s.load .read [c, 1, id]).syscallBody .unasked .read = _ := run
  exact invokes_of_body _ body rfl rfl

/-- The contents after one byte is written at an offset. -/
def written (contents : Nat → List Byte) (inode offset : Nat) (ch : Byte) : Nat → List Byte :=
  Function.update contents inode
    ((contents inode).take offset ++ [ch] ++ (contents inode).drop (offset + 1))

/-- `SysWrite` of one byte to a file that is open for writing, at a place inside of it or at
its end. -/
theorem sysWrite_file (isOpen : s.files.OpenAt id b f d) (readWrite : f.type = 0)
    (held : s.memory.byteAt c = some ch)
    (inside : d.offset ≤ (s.files.host.contents d.inode).length) :
    (d.offset + 1 ≤ OFF_MAX ∧ ∃ memory, memory.mmu.cleared = s.memory.mmu.cleared ∧
      memory.byteAt = s.memory.byteAt ∧ s.sysWrite c 1 id.toInt = .ok (writeResult { s with
        files := s.files.transferred b f d (d.offset + 1)
          (written s.files.host.contents d.inode d.offset ch)
        memory } 1)) ∨
    (OFF_MAX < d.offset + 1 ∧ s.sysWrite c 1 id.toInt = .error (.fault .assertion)) := by
  have range := isOpen.range
  have accepted : ¬ (id.toInt < 2 ∨ id.toInt > MAX_FILE_OPEN - 1) := by omega
  have notRead : ¬ (f.type = 1 ∨ f.type = 2) := by omega
  have start := Stub.OpenFile.Tell_open isOpen.ready.isOpen isOpen.ready.offset
  obtain ⟨text, memory, copied, first, mmu, bytes⟩ := copyIn_one held
  have fetched : user2System s.memory c 1 = .ok (text, memory) := by
    unfold user2System
    rw [check_true (by decide)]
    exact copied
  have one : (List.range 1).map (Stub.bufferOf text) = [ch] := by
    rw [← first]
    rfl
  have moved : int32 ((d.offset : Int) + (1 : Nat) - d.offset) = 1 := by
    rw [add_sub_cancel_left]
    rfl
  have some_written : ((1 : Nat) : Int) > 0 := by decide
  have count : (1 : Word).toInt = ((1 : Nat) : Int) := rfl
  unfold sysWrite writeObject
  simp only [if_neg accepted, isOpen.slot, attempt, Exec.ok_bind,
    Stub.Kernel.object_eq_ok.mpr isOpen.object, if_neg notRead, Stub.OpenFile.getCurrentPos,
    start, fetched, if_pos readWrite, count]
  rcases isOpen.ready.write readWrite (Stub.bufferOf text) 1 with
    ⟨room, run, after⟩ | ⟨full, aborts⟩
  · have host := Host.write_open isOpen.ready.isOpen (isOpen.ready.writable readWrite)
      (Stub.bufferOf text) room inside
    rw [one] at host
    rw [host] at run after
    refine .inl ⟨room, memory, mmu, bytes, ?_⟩
    simp only [run, Exec.ok_bind, after, moved, if_pos some_written]
    rfl
  · refine .inr ⟨full, ?_⟩
    simp only [aborts]
    rfl

/-- `Write(&c, 1, id)`: the byte goes to the file, unless the host cannot store it. -/
theorem invoke_write_byte (isOpen : s.files.OpenAt id b f d) (readWrite : f.type = 0)
    (held : s.view.bytes c = some ch)
    (inside : d.offset ≤ (s.files.host.contents d.inode).length) :
    (d.offset + 1 ≤ OFF_MAX ∧ s.Invokes .unasked .write [c, 1, id] 1 { s.view with
      files := s.files.transferred b f d (d.offset + 1)
        (written s.files.host.contents d.inode d.offset ch) }) ∨
    (OFF_MAX < d.offset + 1 ∧
      s.invoke .unasked .write [c, 1, id] = .error (.fault .assertion)) := by
  have loaded : (s.load .write [c, 1, id]).files.OpenAt id b f d := isOpen
  rcases sysWrite_file (c := c) loaded readWrite held inside with
    ⟨room, memory, mmu, bytes, run⟩ | ⟨full, run⟩
  · have body : (s.load .write [c, 1, id]).syscallBody .unasked .write = _ := run
    refine .inl ⟨room, invokes_of_body _ body rfl ?_⟩
    unfold view
    simp only [writeResult]
    rw [mmu, bytes]
    rfl
  · have body : (s.load .write [c, 1, id]).syscallBody .unasked .write = _ := run
    refine .inr ⟨full, ?_⟩
    unfold invoke exceptionHandler
    simp only [load_number, lookup_call, body]
    rfl

end Transfer

end System

end NachOS.Userprog
