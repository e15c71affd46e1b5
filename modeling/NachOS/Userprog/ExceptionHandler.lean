import NachOS.Machine.MipsSim
import NachOS.Machine.PhysicalMemory
import NachOS.Userprog.ConsoleInput
import NachOS.Userprog.FileCalls

/-!
# The exception handler (userprog/exception.cc:56-350, userprog/ksyscall.h:28-406)

The handler over the registers and the memory of the simulated machine. A system call
finds its number in register 2 and its arguments from register 4 on. Every handler that
returns sets register 2 at most, copies through `User2System` and `System2User`, and
moves the program counters on (`syscall_frame`).

An access to user memory that raises an exception ends in the handler again, which halts
the machine. The characters that the console will deliver are part of the state; a call
that needs more of them does not return. What the host answers, and the number that
`rand` gives, are arguments. Of the file system, the handlers for `Create`, `Open`,
`Close`, `Seek` and `Remove` are those of the model over abstract user memory, whose
fields `memory` and `r2` are not used here. `SynchConsoleInput::Read` is taken as if the
constructor had set `RLineBlock`, which it does not.
-/
namespace NachOS.Userprog
open NachOS.Lib NachOS.Mips NachOS.Filesys

/-- Why a call does not return to the user program. -/
inductive Interruption where
  | fault (fault : Fault)
  /-- It waits for a character that the console never delivers. -/
  | waiting

abbrev Call := Except Interruption

/-- A step of the kernel that may fail. -/
def attempt {α : Type} : Exec α → Call α
  | .ok a => .ok a
  | .error fault => .error (.fault fault)

/-- An access to user memory from the kernel: every exception halts the machine. -/
def access {α : Type} : Attempt α → Call α
  | .ok a => .ok a
  | .error (.fault fault) => .error (.fault fault)
  | .error (.exception _ _ _) => .error (.fault .halted)

section Memory

/-- The loop of `User2System`: the bytes before the NUL, or `limit` bytes. -/
def copyIn (m : Memory) (virtAddr : Word) : Nat → Call (List Byte × Memory)
  | 0 => .ok ([], m)
  | limit + 1 => do
    let (oneChar, m) ← access (m.readMem virtAddr 1)
    if oneChar = 0 then .ok ([], m)
    else
      let (rest, m) ← copyIn m (virtAddr + 1) limit
      .ok (oneChar.setWidth 8 :: rest, m)

/-- `User2System`: the string in the kernel buffer, which is filled up with zeros. -/
def user2System (m : Memory) (virtAddr limit : Word) : Call (List Byte × Memory) := do
  attempt (check (0 ≤ (limit + 1).toInt) .badAlloc)
  copyIn m virtAddr limit.toInt.toNat

/-- The loop of `System2User`, with `n` bytes left to copy from `buffer[i]` on. -/
def copyOut (m : Memory) (virtAddr : Word) (buffer : Buf) (i : Nat) : Nat → Call Memory
  | 0 => .ok m
  | n + 1 => do
    let m ← access (m.writeMem (virtAddr + BitVec.ofNat 32 i) 1 ((buffer i).signExtend 32))
    if buffer i = 0 then .ok m else copyOut m virtAddr buffer (i + 1) n

/-- `System2User`. -/
def system2User (m : Memory) (virtAddr : Word) (len : Int) (buffer : Buf) : Call Memory :=
  copyOut m virtAddr buffer 0 len.toNat

end Memory

section Console

/-- `SynchConsoleInput::GetChar`: the next of the characters to come. -/
def getChar : List Byte → Call (Byte × List Byte)
  | [] => .error .waiting
  | ch :: rest => .ok (ch, rest)

def isBlank (ch : Byte) : Bool := ch = 32 || ch = 10

def isDigit (ch : Byte) : Bool := 48 ≤ ch.toInt && ch.toInt ≤ 57

/-- The first character that is no blank. -/
def skipBlanks : List Byte → Call (Byte × List Byte)
  | [] => .error .waiting
  | ch :: rest => if isBlank ch then skipBlanks rest else .ok (ch, rest)

/-- The value of a C `long long` expression. -/
def int64 (x : Int) : Int := Int.bmod x (2 ^ 64)

/-- The loop of `SysReadNum` from `buffer` on: the number, and whether all were digits. -/
def readDigits (num : Int) (isInteger : Bool) (buffer : Byte) :
    List Byte → Call (Int × Bool × List Byte)
  | [] => .error .waiting
  | ch :: rest =>
    let num := int64 (num * 10 + (buffer.toInt - 48))
    if isBlank ch then .ok (num, isInteger, rest)
    else readDigits num (isInteger && isDigit ch) ch rest

/-- The result of `SysReadNum` after the digits have been read. -/
def numResult (num : Int) (isInteger isNegative : Bool) : Int :=
  let num := if isNegative then int64 (-num) else num
  if isInteger = false then 0
  else if num > 2147483647 ∨ num < -2147483648 then 0
  else num

/-- `SysReadNum`. -/
def sysReadNum (input : List Byte) : Call (Int × List Byte) := do
  let (buffer, input) ← skipBlanks input
  if buffer = 45 then
    let (buffer, input) ← getChar input
    if isBlank buffer then .ok (0, input)
    else
      let (num, isInteger, input) ← readDigits 0 (isDigit buffer) buffer input
      .ok (numResult num isInteger true, input)
  else
    let (num, isInteger, input) ← readDigits 0 (isDigit buffer) buffer input
    .ok (numResult num isInteger false, input)

/-- The digits of a number, in the order of `SysPrintNum`; the array has `room` left. -/
def printDigits (num : Int) : Nat → Exec (List Byte)
  | 0 => if num = 0 then .ok [] else .error .outOfBounds
  | room + 1 =>
    if num = 0 then .ok []
    else do
      let higher ← printDigits (num.tdiv 10) room
      .ok (higher ++ [BitVec.ofInt 8 (48 + num.tmod 10)])

/-- `SysPrintNum`. -/
def sysPrintNum (num : Int) : Exec (List Byte) :=
  if num = 0 then .ok [48]
  else printDigits (if num < 0 then int32 (-num) else num) 10

/-- The loop of `SysReadString` and of `SynchConsoleInput::Read`: the characters of a
line, up to a number of them, and whether CTRL-A has ended it. -/
def readLine : List Byte → Nat → Call (List Byte × Bool × List Byte)
  | input, 0 => .ok ([], false, input)
  | [], _ + 1 => .error .waiting
  | ch :: input, room + 1 =>
    if ch = EOF then readLine input (room + 1)
    else if ch = 1 then .ok ([], true, input)
    else if ch = 10 then .ok ([], false, input)
    else do
      let (line, ended, input) ← readLine input room
      .ok (ch :: line, ended, input)

/-- `SynchConsoleInput::Read`: without a character read, `ch` is not set. -/
def consoleRead (input : List Byte) (numBytes : Int) : Call (Int × List Byte × List Byte) := do
  attempt (check (0 < numBytes) .uninitialized)
  let (line, ended, input) ← readLine input numBytes.toNat
  .ok (if ended then -1 else line.length, line, input)

end Console

/-- What the host and the C library answer during a call. -/
structure Answers where
  /-- The descriptor that `open` gives, if it can. -/
  grant : Option Nat
  /-- Whether `unlink` is permitted. -/
  permitted : Bool
  random : Word

structure System where
  registers : Registers
  memory : Memory
  files : Stub.Kernel
  /-- The characters that the console will deliver. -/
  input : List Byte
  output : List Byte

namespace System

/-- `ReadRegister(num)`. -/
def readRegister (s : System) (num : Nat) : Word := s.registers.get num

/-- `WriteRegister(2, value)`. -/
def writeResult (s : System) (value : Int) : System :=
  { s with registers := fun i => if i.val = 2 then BitVec.ofInt 32 value else s.registers i }

/-- Register 2 is written by some of the branches only. -/
def writeIfAny (s : System) : Option Int → System
  | some value => s.writeResult value
  | none => s

/-- `IncreasePC`. -/
def increasePC (s : System) : System :=
  let r := Function.update s.registers PrevPCReg (s.registers PCReg)
  let r := Function.update r PCReg (r PCReg + 4)
  { s with registers := Function.update r NextPCReg (r PCReg + 4) }

/-- `SysRead` once the object is known. -/
def readObject (s : System) (a : Nat) (virtAddr : Word) (charcount : Int) : Call System := do
  let f ← attempt (s.files.object a)
  if f.type = 3 then .ok (s.writeResult (-1))
  else
    let (curPos, f₁) := f.getCurrentPos s.files.host
    if f.type = 2 then
      let (size, buffer, input) ← consoleRead s.input charcount
      let memory ← system2User s.memory virtAddr size (Stub.bufferOf buffer)
      .ok ({ s with files := s.files.setObject a f₁, input, memory }.writeResult size)
    else
      let (numRead, data, f₂, host) ← attempt (f₁.read s.files.host charcount)
      if numRead > 0 then
        let (newPos, f₃) := f₂.getCurrentPos host
        let count := int32 (newPos - curPos)
        let memory ← system2User s.memory virtAddr count (Stub.bufferOf data)
        .ok ({ s with files := { s.files.setObject a f₃ with host }, memory }.writeResult count)
      else .ok ({ s with files := { s.files.setObject a f₂ with host } }.writeResult (-2))

/-- `SysRead`. -/
def sysRead (s : System) (virtAddr : Word) (charcount id : Int) : Call System :=
  if id < 2 ∨ id > MAX_FILE_OPEN then .ok (s.writeResult (-1))
  else do
    let slot ← attempt (s.files.slot id)
    match slot with
    | none => .ok (s.writeResult (-1))
    | some a => s.readObject a virtAddr charcount

/-- `SysWrite` once the object is known. -/
def writeObject (s : System) (a : Nat) (virtAddr charcount : Word) : Call System := do
  let f ← attempt (s.files.object a)
  if f.type = 1 ∨ f.type = 2 then .ok (s.writeResult (-1))
  else
    let (curPos, f₁) := f.getCurrentPos s.files.host
    let (text, memory) ← user2System s.memory virtAddr charcount
    let s := { s with memory }
    if f.type = 0 then
      let (numWritten, f₂, host) ←
        attempt (f₁.write s.files.host (Stub.bufferOf text) charcount.toInt)
      if numWritten > 0 then
        let (newPos, f₃) := f₂.getCurrentPos host
        .ok ({ s with files := { s.files.setObject a f₃ with host } }.writeResult
          (int32 (newPos - curPos)))
      else .ok { s with files := { s.files.setObject a f₂ with host } }
    else if f.type = 3 then
      .ok ({ s with files := s.files.setObject a f₁, output := s.output ++ text }.writeResult
        (text.length - 1))
    else .ok { s with files := s.files.setObject a f₁ }

/-- `SysWrite`. -/
def sysWrite (s : System) (virtAddr charcount : Word) (id : Int) : Call System :=
  if id < 2 ∨ id > MAX_FILE_OPEN - 1 then .ok (s.writeResult (-1))
  else do
    let slot ← attempt (s.files.slot id)
    match slot with
    | none => .ok (s.writeResult (-1))
    | some a => s.writeObject a virtAddr charcount

end System

/-- The system calls that the handler knows (userprog/syscall.h:21-49). -/
inductive SystemCall where
  | halt
  | create
  | remove
  | openFile
  | read
  | write
  | seek
  | close
  | add
  | readNum
  | printNum
  | readChar
  | printChar
  | randomNum
  | readString
  | printString
  deriving DecidableEq

/-- The numbers `SC_Halt`, `SC_Create` and so on. -/
def callNumbers : List (Int × SystemCall) :=
  [(0, .halt), (4, .create), (5, .remove), (6, .openFile), (7, .read), (8, .write), (9, .seek),
   (10, .close), (42, .add), (43, .readNum), (44, .printNum), (45, .readChar), (46, .printChar),
   (47, .randomNum), (48, .readString), (49, .printString)]

namespace System

/-- A call of the file system that does not touch user memory. -/
def fileCall (s : System) (call : Exec (Option Int × Stub.Kernel)) : Call System := do
  let (written, files) ← attempt call
  .ok ({ s with files }.writeIfAny written)

/-- The cases of the handler, up to `IncreasePC`. -/
def syscallBody (s : System) (answers : Answers) : SystemCall → Call System
  | .halt => .error (.fault .halted)
  | .add =>
    .ok (s.writeResult ((s.readRegister 4).toInt + (s.readRegister 5).toInt))
  | .readNum => do
    let (num, input) ← sysReadNum s.input
    .ok ({ s with input }.writeResult num)
  | .printNum => do
    let digits ← attempt (sysPrintNum (s.readRegister 4).toInt)
    .ok { s with output := s.output ++ digits }
  | .randomNum => .ok (s.writeResult answers.random.toInt)
  | .readChar => do
    let (ch, input) ← getChar s.input
    .ok ({ s with input }.writeResult ch.toInt)
  | .printChar => .ok { s with output := s.output ++ [(s.readRegister 4).setWidth 8] }
  | .readString => do
    let (_, memory) ← user2System s.memory (s.readRegister 4) (s.readRegister 5)
    let (line, _, input) ← readLine s.input (s.readRegister 5).toInt.toNat
    let memory ← system2User memory (s.readRegister 4) (s.readRegister 5).toInt (Stub.bufferOf line)
    .ok { s with memory, input }
  | .printString => do
    let (text, memory) ← user2System s.memory (s.readRegister 4) 255
    .ok { s with memory, output := s.output ++ text }
  | .create => do
    let (filename, memory) ←
      user2System s.memory (s.readRegister 4) (BitVec.ofInt 32 Stub.MaxFileLength)
    { s with memory }.fileCall do
      let (res, files) ← s.files.sysCreateFile filename answers.grant
      .ok (some res, files)
  | .openFile => do
    let (filename, memory) ←
      user2System s.memory (s.readRegister 4) (BitVec.ofInt 32 Stub.MaxFileLength)
    { s with memory }.fileCall (s.files.sysOpen filename (s.readRegister 5).toInt answers.grant)
  | .close => s.fileCall do
    let (res, files) ← s.files.sysClose (s.readRegister 4).toInt
    .ok (some res, files)
  | .read => do
    attempt (check (0 ≤ (s.readRegister 5).toInt) .badAlloc)
    s.sysRead (s.readRegister 4) (s.readRegister 5).toInt (s.readRegister 6).toInt
  | .write => do
    attempt (check (0 ≤ (s.readRegister 5).toInt) .badAlloc)
    s.sysWrite (s.readRegister 4) (s.readRegister 5) (s.readRegister 6).toInt
  | .seek => s.fileCall do
    let (res, files) ← s.files.sysSeek (s.readRegister 4).toInt (s.readRegister 5).toInt
    .ok (some res, files)
  | .remove => do
    let (filename, memory) ←
      user2System s.memory (s.readRegister 4) (BitVec.ofInt 32 (Stub.MaxFileLength + 1))
    let (res, files) := s.files.sysRemove filename answers.permitted
    .ok ({ s with memory, files }.writeResult res)

/-- `ExceptionHandler`: every exception but a system call halts the machine, and a
number that no case handles ends in `ASSERTNOTREACHED`. -/
def exceptionHandler (s : System) (answers : Answers) (which : ExceptionType) : Call System :=
  match which with
  | .syscall =>
    match callNumbers.lookup (s.readRegister 2).toInt with
    | some call => do
      let s ← s.syscallBody answers call
      .ok s.increasePC
    | none => .error (.fault .assertion)
  | _ => .error (.fault .halted)

end System

end NachOS.Userprog

namespace NachOS.Stub
open NachOS.Lib

/-- The position of a descriptor, or -1 for one that is closed or out of range. -/
theorem Tell_cases (h : Host) (fd : Nat) :
    Tell h fd = -1 ∨ ∃ d, h.fds fd = some d ∧ d.offset ≤ OFF_MAX ∧ Tell h fd = d.offset := by
  cases isOpen : h.fds fd with
  | none =>
    left
    unfold Tell Host.lseek
    rw [isOpen]
  | some d =>
    by_cases small : d.offset ≤ OFF_MAX
    · exact .inr ⟨d, rfl, small, Host.lseek_current isOpen small⟩
    · left
      have large : h.seekTarget d 0 .current < 0 ∨ h.seekTarget d 0 .current > OFF_MAX := by
        simp only [Host.seekTarget]
        omega
      unfold Tell Host.lseek
      rw [isOpen]
      simp only [if_pos large]

/-- A seek to -1 is refused. -/
theorem Lseek_negative (h : Host) (fd : Nat) : Lseek h fd (-1) .set = .error .assertion := by
  have refused : h.lseek fd (-1) .set = (-1, h) := by
    unfold Host.lseek
    cases h.fds fd with
    | none => rfl
    | some d => exact if_pos (.inl (show (-1 : Int) < 0 by decide))
  have failed : ¬ (0 : Int) ≤ -1 := by decide
  simp only [Lseek, refused, check, if_neg failed, Exec.error_bind]

/-- `newPos - curPos` in `SysRead` is at most what was asked for, on any host. -/
theorem OpenFile.read_count {f f₂ : OpenFile} {h host : Host} {n numRead : Int} {data : List Byte}
    (low : 0 ≤ n) (high : n ≤ 2147483647)
    (run : (f.getCurrentPos h).2.read h n = .ok (numRead, data, f₂, host)) :
    (int32 ((f₂.getCurrentPos host).1 - (f.getCurrentPos h).1)).toNat ≤ n.toNat := by
  have top : (OFF_MAX : Int) = 2147483647 := rfl
  obtain ⟨⟨numRead', data', h₂⟩, transfer, rest⟩ := Exec.bind_eq_ok.mp run
  cases rest
  obtain ⟨h₁, sought, transfer⟩ := Exec.bind_eq_ok.mp transfer
  simp only [getCurrentPos] at sought transfer ⊢
  rcases Tell_cases h f.file with refused | ⟨d, isOpen, small, position⟩
  · rw [refused, Lseek_negative] at sought
    cases sought
  · rw [position, Lseek_set isOpen small, Host.moveTo_here isOpen] at sought
    cases sought
    have count : ∃ len : Nat, len ≤ n.toNat ∧ (host = h ∧ len = 0 ∨
        host = h.moveTo f.file d (d.offset + len)) := by
      unfold Host.read at transfer
      rw [isOpen] at transfer
      dsimp only at transfer
      split at transfer
      next =>
        cases transfer
        exact ⟨0, Nat.zero_le _, .inl ⟨rfl, rfl⟩⟩
      next =>
        cases transfer
        refine ⟨_, ?_, .inr rfl⟩
        rw [List.length_take]
        exact Nat.min_le_left _ _
    obtain ⟨len, bound, after⟩ := count
    rw [position]
    rcases after with ⟨rfl, rfl⟩ | rfl
    · rw [position, sub_self]
      exact Nat.zero_le _
    · rcases Tell_cases (h.moveTo f.file d (d.offset + len)) f.file with
        refused | ⟨d', there, small', position'⟩
      · rw [refused, int32_of_range (by omega) (by omega)]
        omega
      · rw [Host.moveTo_self] at there
        cases there
        rw [position', int32_of_range (by push_cast; omega) (by push_cast; omega)]
        push_cast
        omega

end NachOS.Stub

namespace NachOS.Userprog
open NachOS.Lib NachOS.Mips NachOS.Filesys

section Frame

theorem attempt_eq_ok {α : Type} {x : Exec α} {a : α} : attempt x = .ok a ↔ x = .ok a := by
  cases x with
  | error fault => simp [attempt]
  | ok b => simp [attempt]

theorem access_eq_ok {α : Type} {x : Attempt α} {a : α} : access x = .ok a ↔ x = .ok a := by
  cases x with
  | error stop => cases stop <;> simp [access]
  | ok b => simp [access]

/-- Only bytes behind the `n` addresses from `virtAddr` on may differ, and every address
leads where it did before. -/
structure Reaches (m m' : Memory) (virtAddr : Word) (n : Nat) : Prop where
  mmu : m'.mmu.cleared = m.mmu.cleared
  inside : ∀ p, m'.mainMemory p ≠ m.mainMemory p →
    ∃ j < n, m.mmu.physical (virtAddr + BitVec.ofNat 32 j) true = some p

variable {m m' m₁ : Memory} {virtAddr : Word} {n : Nat}

theorem Reaches.of_mainMemory (mmu : m'.mmu.cleared = m.mmu.cleared)
    (same : m'.mainMemory = m.mainMemory) : Reaches m m' virtAddr n :=
  ⟨mmu, fun p changed => absurd (congrFun same p) changed⟩

theorem Reaches.trans (first : Reaches m m₁ virtAddr n) (second : Reaches m₁ m' virtAddr n) :
    Reaches m m' virtAddr n := by
  refine ⟨second.mmu.trans first.mmu, fun p changed => ?_⟩
  by_cases early : m₁.mainMemory p = m.mainMemory p
  · obtain ⟨j, less, reached⟩ := second.inside p (by rw [early]; exact changed)
    exact ⟨j, less, by rw [← Mmu.physical_congr first.mmu]; exact reached⟩
  · exact first.inside p early

theorem Reaches.mono {n' : Nat} (reaches : Reaches m m' virtAddr n) (le : n ≤ n') :
    Reaches m m' virtAddr n' := by
  refine ⟨reaches.mmu, fun p changed => ?_⟩
  obtain ⟨j, less, reached⟩ := reaches.inside p changed
  exact ⟨j, by omega, reached⟩

theorem copyIn_reaches {a : Word} {text : List Byte} (run : copyIn m a n = .ok (text, m')) :
    m'.mmu.cleared = m.mmu.cleared ∧ m'.mainMemory = m.mainMemory := by
  induction n generalizing m a text with
  | zero =>
    cases run
    exact ⟨rfl, rfl⟩
  | succ n ih =>
    obtain ⟨⟨oneChar, m₁⟩, fetched, rest⟩ := Exec.bind_eq_ok.mp run
    obtain ⟨same, mmu⟩ := Memory.readMem_byte (access_eq_ok.mp fetched)
    dsimp only at rest
    split at rest
    next =>
      cases rest
      exact ⟨mmu, same⟩
    next =>
      obtain ⟨⟨tail, m₂⟩, copied, rest⟩ := Exec.bind_eq_ok.mp rest
      cases rest
      obtain ⟨mmu', same'⟩ := ih copied
      exact ⟨mmu'.trans mmu, same'.trans same⟩

/-- `User2System` reads only. -/
theorem user2System_reaches {a limit : Word} {text : List Byte}
    (run : user2System m a limit = .ok (text, m')) : Reaches m m' virtAddr n := by
  obtain ⟨_, _, copied⟩ := Exec.bind_eq_ok.mp run
  obtain ⟨mmu, same⟩ := copyIn_reaches copied
  exact .of_mainMemory mmu same

/-- One byte more each time, from `buffer[i]` on. -/
theorem copyOut_reaches {buffer : Buf} {i : Nat} (run : copyOut m virtAddr buffer i n = .ok m') :
    Reaches m m' virtAddr (i + n) := by
  induction n generalizing m i with
  | zero =>
    cases run
    exact .of_mainMemory rfl rfl
  | succ n ih =>
    obtain ⟨m₁, stored, rest⟩ := Exec.bind_eq_ok.mp run
    obtain ⟨p, reached, written, mmu⟩ := Memory.writeMem_byte (access_eq_ok.mp stored)
    have first : Reaches m m₁ virtAddr (i + (n + 1)) := by
      refine ⟨mmu, fun q changed => ⟨i, by omega, ?_⟩⟩
      by_cases here : q = p
      · rw [here]
        exact reached
      · rw [written, Function.update_of_ne here] at changed
        exact absurd rfl changed
    split at rest
    next =>
      cases rest
      exact first
    next => exact first.trans ((ih rest).mono (by omega))

/-- `System2User` writes `len` bytes at most. -/
theorem system2User_reaches {buffer : Buf} {len : Int}
    (run : system2User m virtAddr len buffer = .ok m') : Reaches m m' virtAddr len.toNat :=
  (copyOut_reaches run).mono (by omega)

end Frame

/-- How many addresses from register 4 on a call may write to. -/
def SystemCall.span (call : SystemCall) (s : System) : Nat :=
  if call = .read ∨ call = .readString then (s.readRegister 5).toInt.toNat else 0

namespace System

variable {s s' : System} {answers : Answers} {call : SystemCall}

/-- The registers but for register 2, and user memory in the span of the call. -/
structure BodyFrame (s s' : System) (n : Nat) : Prop where
  registers : ∀ i : Fin 40, i.val ≠ 2 → s'.registers i = s.registers i
  memory : Reaches s.memory s'.memory (s.readRegister 4) n

theorem writeResult_registers (s : System) (value : Int) (i : Fin 40) (other : i.val ≠ 2) :
    (s.writeResult value).registers i = s.registers i :=
  if_neg other

/-- A body that sets register 2 at most. -/
theorem BodyFrame.of_memory {memory : Memory} {files : Stub.Kernel} {input output : List Byte}
    {n : Nat} (reaches : Reaches s.memory memory (s.readRegister 4) n) (written : Option Int) :
    BodyFrame s ({ s with memory, files, input, output }.writeIfAny written) n := by
  cases written with
  | none => exact ⟨fun _ _ => rfl, reaches⟩
  | some value => exact ⟨fun i other => writeResult_registers _ value i other, reaches⟩

theorem fileCall_frame {memory : Memory} {e : Exec (Option Int × Stub.Kernel)} {n : Nat}
    (reaches : Reaches s.memory memory (s.readRegister 4) n)
    (run : { s with memory }.fileCall e = .ok s') : BodyFrame s s' n := by
  obtain ⟨⟨written, files⟩, _, rest⟩ := Exec.bind_eq_ok.mp run
  cases rest
  exact .of_memory reaches written

theorem readLine_length {input rest line : List Byte} {room : Nat} {ended : Bool}
    (run : readLine input room = .ok (line, ended, rest)) : line.length ≤ room := by
  induction input generalizing room line with
  | nil =>
    cases room with
    | zero =>
      simp only [readLine] at run
      cases run
      exact le_rfl
    | succ room =>
      simp only [readLine] at run
      cases run
  | cons ch input ih =>
    cases room with
    | zero =>
      simp only [readLine] at run
      cases run
      exact le_rfl
    | succ room =>
      simp only [readLine] at run
      split at run
      next => exact ih run
      next =>
        split at run
        next =>
          cases run
          exact Nat.zero_le _
        next =>
          split at run
          next =>
            cases run
            exact Nat.zero_le _
          next =>
            obtain ⟨⟨tail, ended', rest'⟩, read, run⟩ := Exec.bind_eq_ok.mp run
            cases run
            exact Nat.succ_le_succ (ih read)

/-- A line from the console is no longer than the buffer. -/
theorem consoleRead_count {input rest line : List Byte} {n size : Int}
    (run : consoleRead input n = .ok (size, line, rest)) : size.toNat ≤ n.toNat := by
  obtain ⟨_, _, run⟩ := Exec.bind_eq_ok.mp run
  obtain ⟨⟨line', ended, rest'⟩, read, run⟩ := Exec.bind_eq_ok.mp run
  have bound := readLine_length read
  cases run
  split <;> omega

theorem readObject_frame {a : Nat} {n : Int} (low : 0 ≤ n) (high : n ≤ 2147483647)
    (run : s.readObject a (s.readRegister 4) n = .ok s') : BodyFrame s s' n.toNat := by
  have unchanged : Reaches s.memory s.memory (s.readRegister 4) n.toNat := .of_mainMemory rfl rfl
  obtain ⟨f, _, run⟩ := Exec.bind_eq_ok.mp run
  split at run
  next =>
    cases run
    exact .of_memory unchanged (some (-1))
  next =>
    dsimp only at run
    split at run
    next =>
      obtain ⟨⟨size, buffer, input⟩, read, run⟩ := Exec.bind_eq_ok.mp run
      obtain ⟨memory, copied, run⟩ := Exec.bind_eq_ok.mp run
      cases run
      exact .of_memory ((system2User_reaches copied).mono (consoleRead_count read)) (some size)
    next =>
      obtain ⟨⟨numRead, data, f₂, host⟩, read, run⟩ := Exec.bind_eq_ok.mp run
      have count := Stub.OpenFile.read_count low high (attempt_eq_ok.mp read)
      dsimp only at run
      split at run
      next =>
        obtain ⟨memory, copied, run⟩ := Exec.bind_eq_ok.mp run
        cases run
        exact .of_memory ((system2User_reaches copied).mono count) (some _)
      next =>
        cases run
        exact .of_memory unchanged (some (-2))

theorem sysRead_frame {n id : Int} (low : 0 ≤ n) (high : n ≤ 2147483647)
    (run : s.sysRead (s.readRegister 4) n id = .ok s') : BodyFrame s s' n.toNat := by
  have unchanged : Reaches s.memory s.memory (s.readRegister 4) n.toNat := .of_mainMemory rfl rfl
  unfold sysRead at run
  split at run
  next =>
    cases run
    exact .of_memory unchanged (some (-1))
  next =>
    obtain ⟨slot, _, run⟩ := Exec.bind_eq_ok.mp run
    cases slot with
    | none =>
      cases run
      exact .of_memory unchanged (some (-1))
    | some a => exact readObject_frame low high run

theorem writeObject_frame {a : Nat} {virtAddr charcount : Word}
    (run : s.writeObject a virtAddr charcount = .ok s') : BodyFrame s s' 0 := by
  obtain ⟨f, _, run⟩ := Exec.bind_eq_ok.mp run
  split at run
  next =>
    cases run
    exact .of_memory (.of_mainMemory rfl rfl) (some (-1))
  next =>
    dsimp only at run
    obtain ⟨⟨text, memory⟩, copied, run⟩ := Exec.bind_eq_ok.mp run
    have reaches : Reaches s.memory memory (s.readRegister 4) 0 := user2System_reaches copied
    dsimp only at run
    split at run
    next =>
      obtain ⟨⟨numWritten, f₂, host⟩, _, run⟩ := Exec.bind_eq_ok.mp run
      dsimp only at run
      split at run
      next =>
        cases run
        exact .of_memory reaches (some _)
      next =>
        cases run
        exact .of_memory reaches none
    next =>
      split at run
      next =>
        cases run
        exact .of_memory reaches (some _)
      next =>
        cases run
        exact .of_memory reaches none

theorem sysWrite_frame {virtAddr charcount : Word} {id : Int}
    (run : s.sysWrite virtAddr charcount id = .ok s') : BodyFrame s s' 0 := by
  unfold sysWrite at run
  split at run
  next =>
    cases run
    exact .of_memory (.of_mainMemory rfl rfl) (some (-1))
  next =>
    obtain ⟨slot, _, run⟩ := Exec.bind_eq_ok.mp run
    cases slot with
    | none =>
      cases run
      exact .of_memory (.of_mainMemory rfl rfl) (some (-1))
    | some a => exact writeObject_frame run

/-- Every handler that comes back has stayed in its frame. -/
theorem syscallBody_frame (run : s.syscallBody answers call = .ok s') :
    BodyFrame s s' (call.span s) := by
  have unchanged : ∀ n, Reaches s.memory s.memory (s.readRegister 4) n :=
    fun _ => .of_mainMemory rfl rfl
  have range := CInt.range (s.readRegister 5)
  cases call with
  | halt => cases run
  | add =>
    cases run
    exact .of_memory (unchanged _) (some _)
  | readNum =>
    obtain ⟨⟨num, input⟩, _, run⟩ := Exec.bind_eq_ok.mp run
    cases run
    exact .of_memory (unchanged _) (some num)
  | printNum =>
    obtain ⟨digits, _, run⟩ := Exec.bind_eq_ok.mp run
    cases run
    exact .of_memory (unchanged _) none
  | randomNum =>
    cases run
    exact .of_memory (unchanged _) (some _)
  | readChar =>
    obtain ⟨⟨ch, input⟩, _, run⟩ := Exec.bind_eq_ok.mp run
    cases run
    exact .of_memory (unchanged _) (some _)
  | printChar =>
    cases run
    exact .of_memory (unchanged _) none
  | readString =>
    obtain ⟨⟨_, memory₁⟩, fetched, run⟩ := Exec.bind_eq_ok.mp run
    obtain ⟨⟨line, _, input⟩, _, run⟩ := Exec.bind_eq_ok.mp run
    obtain ⟨memory₂, copied, run⟩ := Exec.bind_eq_ok.mp run
    cases run
    exact .of_memory ((user2System_reaches fetched).trans (system2User_reaches copied)) none
  | printString =>
    obtain ⟨⟨text, memory⟩, fetched, run⟩ := Exec.bind_eq_ok.mp run
    cases run
    exact .of_memory (user2System_reaches fetched) none
  | create =>
    obtain ⟨⟨filename, memory⟩, fetched, run⟩ := Exec.bind_eq_ok.mp run
    exact fileCall_frame (user2System_reaches fetched) run
  | openFile =>
    obtain ⟨⟨filename, memory⟩, fetched, run⟩ := Exec.bind_eq_ok.mp run
    exact fileCall_frame (user2System_reaches fetched) run
  | close => exact fileCall_frame (unchanged _) run
  | read =>
    obtain ⟨_, positive, run⟩ := Exec.bind_eq_ok.mp run
    exact sysRead_frame (check_eq_ok.mp (attempt_eq_ok.mp positive)) range.2 run
  | write =>
    obtain ⟨_, _, run⟩ := Exec.bind_eq_ok.mp run
    exact sysWrite_frame run
  | seek => exact fileCall_frame (unchanged _) run
  | remove =>
    obtain ⟨⟨filename, memory⟩, fetched, run⟩ := Exec.bind_eq_ok.mp run
    cases run
    exact .of_memory (user2System_reaches fetched) (some _)

/-- The byte that the user program finds at an address, if it can read there. -/
def userByte (s : System) (virtAddr : Word) : Option Byte :=
  (s.memory.mmu.physical virtAddr false).map s.memory.mainMemory

/-- The numbers of `Read` and `ReadString`. -/
def ReadsInput (s : System) : Prop :=
  (s.readRegister 2).toInt = 7 ∨ (s.readRegister 2).toInt = 48

/-- The state in which the user program goes on after a system call. -/
structure ReturnsToUser (s s' : System) : Prop where
  /-- `Create` to `Close`, and `Add` to `PrintString`. -/
  number : 4 ≤ (s.readRegister 2).toInt ∧ (s.readRegister 2).toInt ≤ 10 ∨
    42 ≤ (s.readRegister 2).toInt ∧ (s.readRegister 2).toInt ≤ 49
  pc : s'.registers PCReg = s.registers PCReg + 4
  nextPC : s'.registers NextPCReg = s.registers PCReg + 8
  prevPC : s'.registers PrevPCReg = s.registers PCReg
  others : ∀ i : Fin 40, i.val ≠ 2 → i ≠ PCReg → i ≠ NextPCReg → i ≠ PrevPCReg →
    s'.registers i = s.registers i
  /-- A byte of main memory changes only behind one of the addresses from `r4` to
  `r4 + r5`. -/
  memory : ∀ p, s'.memory.mainMemory p ≠ s.memory.mainMemory p → s.ReadsInput ∧
    ∃ j : Nat, (j : Int) < (s.readRegister 5).toInt ∧
      s.memory.mmu.physical (s.readRegister 4 + BitVec.ofNat 32 j) true = some p
  /-- If no two addresses share a byte, these are the only addresses at which the user
  program finds another byte than before. -/
  inside : s.memory.mmu.Injective → ∀ virtAddr, s'.userByte virtAddr ≠ s.userByte virtAddr →
    s.ReadsInput ∧ ∃ j : Nat, (j : Int) < (s.readRegister 5).toInt ∧
      virtAddr = s.readRegister 4 + BitVec.ofNat 32 j

/-- The three program counters, the last of which takes the new value of the second. -/
theorem increasePC_registers (s : System) :
    s.increasePC.registers PCReg = s.registers PCReg + 4 ∧
    s.increasePC.registers NextPCReg = s.registers PCReg + 8 ∧
    s.increasePC.registers PrevPCReg = s.registers PCReg ∧
    ∀ i, i ≠ PCReg → i ≠ NextPCReg → i ≠ PrevPCReg → s.increasePC.registers i = s.registers i := by
  have apart : PCReg ≠ NextPCReg ∧ PCReg ≠ PrevPCReg ∧ PrevPCReg ≠ NextPCReg := by decide
  simp only [increasePC]
  refine ⟨?_, ?_, ?_, fun i pc next prev => ?_⟩
  · rw [Function.update_of_ne apart.1, Function.update_self, Function.update_of_ne apart.2.1]
  · rw [Function.update_self, Function.update_self, Function.update_of_ne apart.2.1,
      BitVec.add_assoc]
    rfl
  · rw [Function.update_of_ne apart.2.2, Function.update_of_ne apart.2.1.symm, Function.update_self]
  · rw [Function.update_of_ne next, Function.update_of_ne pc, Function.update_of_ne prev]

/-- What the number says about the call. -/
theorem lookup_number {number : Int} (found : callNumbers.lookup number = some call)
    (returns : call ≠ .halt) : (4 ≤ number ∧ number ≤ 10 ∨ 42 ≤ number ∧ number ≤ 49) ∧
      (call = .read ∨ call = .readString → number = 7 ∨ number = 48) := by
  have table : ∀ entry ∈ callNumbers, entry.2 ≠ .halt →
      (4 ≤ entry.1 ∧ entry.1 ≤ 10 ∨ 42 ≤ entry.1 ∧ entry.1 ≤ 49) ∧
        (entry.2 = .read ∨ entry.2 = .readString → entry.1 = 7 ∨ entry.1 = 48) := by decide
  obtain ⟨before, after, split, _⟩ := List.lookup_eq_some_iff.mp found
  have listed : (number, call) ∈ callNumbers := by
    rw [split]
    exact List.mem_append_right _ List.mem_cons_self
  exact table (number, call) listed returns

end System

/-- A system call that returns moves the program counters on, changes no other register
but register 2, and changes user memory only if it is `Read` or `ReadString`, and only
inside of the buffer it was given. -/
theorem syscall_frame {s s' : System} {answers : Answers}
    (run : s.exceptionHandler answers .syscall = .ok s') : s.ReturnsToUser s' := by
  unfold System.exceptionHandler at run
  dsimp only at run
  split at run
  next call found =>
    obtain ⟨s₁, body, rest⟩ := Exec.bind_eq_ok.mp run
    cases rest
    have frame := System.syscallBody_frame body
    have returns : call ≠ .halt := by
      rintro rfl
      cases body
    obtain ⟨known, reads⟩ := System.lookup_number found returns
    obtain ⟨pc, nextPC, prevPC, others⟩ := s₁.increasePC_registers
    have counters : s₁.registers PCReg = s.registers PCReg :=
      frame.registers PCReg (by decide)
    have inside : ∀ p, s₁.memory.mainMemory p ≠ s.memory.mainMemory p → s.ReadsInput ∧
        ∃ j : Nat, (j : Int) < (s.readRegister 5).toInt ∧
          s.memory.mmu.physical (s.readRegister 4 + BitVec.ofNat 32 j) true = some p := by
      intro p changed
      obtain ⟨j, less, reached⟩ := frame.memory.inside p changed
      unfold SystemCall.span at less
      split at less
      next reader => exact ⟨reads reader, j, by omega, reached⟩
      next => omega
    constructor
    · exact known
    · rw [pc, counters]
    · rw [nextPC, counters]
    · rw [prevPC, counters]
    · intro i other notPC notNext notPrev
      rw [others i notPC notNext notPrev]
      exact frame.registers i other
    · exact inside
    · intro injective virtAddr differs
      have leads : s₁.memory.mmu.physical virtAddr false = s.memory.mmu.physical virtAddr false :=
        Mmu.physical_congr frame.memory.mmu virtAddr false
      change (s₁.memory.mmu.physical virtAddr false).map s₁.memory.mainMemory ≠ _ at differs
      unfold System.userByte at differs
      rw [leads] at differs
      cases reached : s.memory.mmu.physical virtAddr false with
      | none =>
        rw [reached] at differs
        exact absurd rfl differs
      | some p =>
        rw [reached] at differs
        obtain ⟨reader, j, less, written⟩ := inside p fun same => differs (congrArg some same)
        exact ⟨reader, j, less, (injective _ _ p written reached).symm⟩
  next => cases run

/-- A machine with one page of memory, in a system call with three arguments. -/
def callingState (number virtAddr size id : Word) (typed : List Byte) : System where
  registers := fun i =>
    if i.val = 2 then number else if i.val = 4 then virtAddr else if i.val = 5 then size
    else if i.val = 6 then id else 0
  memory := programMemory []
  files := Stub.Kernel.empty
    ⟨fun _ => none, fun _ => [], fun _ => none, 0⟩ ⟨fun _ => 0, fun _ => false, fun _ => false⟩
  input := typed
  output := []

/-- `ReadString` into a buffer of 16 bytes at address 40. -/
theorem syscall_frame_readString :
    ∃ s', (callingState 48 40 16 0 [72, 105, 10]).ReturnsToUser s' := by
  have returns : ((callingState 48 40 16 0 [72, 105, 10]).exceptionHandler
      ⟨none, false, 0⟩ .syscall).toOption.isSome = true := by decide +kernel
  obtain ⟨s', run⟩ := Option.isSome_iff_exists.mp returns
  exact ⟨s', syscall_frame (Exec.toOption_eq_some.mp run)⟩

end NachOS.Userprog
