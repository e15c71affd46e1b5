import NachOS.Filesys.Stub
import NachOS.Filesys.FileSystem
import NachOS.Lib.Machine

/-!
# The file system calls (userprog/ksyscall.h:28-406, userprog/exception.cc:228-340,
filesys/filesys.h:51-128)

The system calls `Create`, `Open`, `Close`, `Read`, `Write`, `Seek` and `Remove`
over the stub file system. The kernel keeps pointers to `OpenFile` objects in the
table `openf`; objects are numbered so that two of them can be told apart. A system
call number is passed in register 2, the result comes back in the same register, so
a call that writes no result returns its own number.

User memory is what `ReadMem` and `WriteMem` give access to; an access that raises
an exception halts the machine. What the host and the console answer is part of the
event, as is anything user code does to its memory between two calls. The messages
that the calls print are left out.
-/
namespace NachOS.Stub
open NachOS.Lib NachOS.Filesys

structure UserMemory where
  byte : Int → Byte
  readable : Int → Bool
  writable : Int → Bool

namespace UserMemory

/-- `ReadMem(addr, 1, value)`. -/
def readMem (m : UserMemory) (addr : Int) : Exec Byte := do
  check (m.readable addr = true) .halted
  .ok (m.byte addr)

/-- `WriteMem(addr, 1, value)`. -/
def writeMem (m : UserMemory) (addr : Int) (value : Byte) : Exec UserMemory := do
  check (m.writable addr = true) .halted
  .ok { m with byte := Function.update m.byte addr value }

/-- The bytes that the loop of `User2System` copies: at most `limit`, up to a NUL. -/
def copyIn (m : UserMemory) (virtAddr : Int) : Nat → Exec (List Byte)
  | 0 => .ok []
  | limit + 1 => do
    let oneChar ← m.readMem virtAddr
    if oneChar = 0 then .ok []
    else
      let rest ← m.copyIn (virtAddr + 1) limit
      .ok (oneChar :: rest)

/-- `User2System`: the string in the kernel buffer, which is filled up with zeros. -/
def user2System (m : UserMemory) (virtAddr limit : Int) : Exec (List Byte) := do
  check (0 ≤ int32 (limit + 1)) .badAlloc
  m.copyIn virtAddr limit.toNat

/-- The loop of `System2User`, with `n` bytes left to copy from `buffer[i]` on. -/
def copyOut (m : UserMemory) (virtAddr : Int) (buffer : Buf) (i : Nat) : Nat → Exec UserMemory
  | 0 => .ok m
  | n + 1 => do
    let m ← m.writeMem (virtAddr + i) (buffer i)
    if buffer i = 0 then .ok m else m.copyOut virtAddr buffer (i + 1) n

/-- `System2User`. -/
def system2User (m : UserMemory) (virtAddr len : Int) (buffer : Buf) : Exec UserMemory :=
  m.copyOut virtAddr buffer 0 len.toNat

variable {m : UserMemory} {virtAddr : Int}

theorem copyIn_mapped (virtAddr : Int) {n : Nat}
    (mapped : ∀ j < n, m.readable (virtAddr + j) = true) :
    ∃ text, m.copyIn virtAddr n = .ok text := by
  induction n generalizing virtAddr with
  | zero => exact ⟨[], rfl⟩
  | succ n ih =>
    have first : m.readable virtAddr = true := by simpa using mapped 0 (by omega)
    obtain ⟨rest, run⟩ := ih (virtAddr + 1) fun j hj => by
      have := mapped (j + 1) (by omega)
      rwa [Nat.cast_add, Nat.cast_one, add_comm (j : Int), ← add_assoc] at this
    simp only [copyIn, readMem, check_true first, Exec.ok_bind, run]
    split
    next => exact ⟨_, rfl⟩
    next => exact ⟨_, rfl⟩

theorem copyOut_mapped (buffer : Buf) (i n : Nat)
    (mapped : ∀ j < i + n, m.writable (virtAddr + j) = true) :
    ∃ m', m.copyOut virtAddr buffer i n = .ok m' := by
  induction n generalizing m i with
  | zero => exact ⟨m, rfl⟩
  | succ n ih =>
    have here : m.writable (virtAddr + i) = true := mapped i (by omega)
    simp only [copyOut, writeMem, check_true here, Exec.ok_bind]
    split
    next => exact ⟨_, rfl⟩
    next => exact ih (i + 1) fun j hj => mapped j (by omega)

end UserMemory

/-- The memory of a buffer that starts with `bytes`. -/
def bufferOf (bytes : List Byte) : Buf := fun i => bytes.getD i 0

/-- `OpenForWrite`: abort if the host refuses. -/
def OpenForWrite (h : Host) (name : List Byte) (grant : Option Nat) : Exec (Nat × Host) :=
  match h.openFile name .truncate grant with
  | (some fd, h) => .ok (fd, h)
  | (none, _) => .error .assertion

/-- `Close`: abort on error. -/
def Close (h : Host) (fd : Nat) : Exec Host :=
  match h.close fd with
  | (retVal, h) => do
    check (0 ≤ retVal) .assertion
    .ok h

theorem Close_eq_ok {h h' : Host} {fd : Nat} : Close h fd = .ok h' ↔
    (h.fds fd).isSome = true ∧ h' = { h with fds := Function.update h.fds fd none } := by
  have success : (0 : Int) ≤ 0 := le_rfl
  have failure : ¬ (0 : Int) ≤ -1 := by decide
  unfold Close Host.close
  by_cases isOpen : (h.fds fd).isSome = true
  · simp only [if_pos isOpen, check_true success, Exec.ok_bind, Except.ok.injEq]
    exact ⟨fun same => ⟨isOpen, same.symm⟩, fun facts => facts.2.symm⟩
  · simp only [if_neg isOpen, check, if_neg failure]
    constructor
    · intro never
      cases never
    · intro facts
      exact absurd facts.1 isOpen

/-- `FileSystem::Create`. -/
def create (h : Host) (name : List Byte) (grant : Option Nat) : Exec Host := do
  let (fd, h) ← OpenForWrite h name grant
  Close h fd

/-- `FileSystem::Open(name, type)`: the new object, or NULL. -/
def openType (h : Host) (name : List Byte) (type : Int) (grant : Option Nat) :
    Exec (Option OpenFile × Host) :=
  if type = 0 then
    let (fd, h) := h.openFile name .readWrite grant
    .ok (fd.map (OpenFile.new · type), h)
  else if type = 1 ∨ type = 2 then
    let (fd, h) := h.openFile name .readOnly grant
    .ok (fd.map (OpenFile.new · type), h)
  else if type = 3 then do
    let (fd, h) ← OpenForWrite h name grant
    .ok (some (OpenFile.new fd type), h)
  else .error .uninitialized

/-- `FileSystem::Remove`. -/
def remove (h : Host) (name : List Byte) (permitted : Bool) : Bool × Host :=
  match h.unlink name permitted with
  | (retVal, h) => (decide (retVal = 0), h)

structure Kernel where
  host : Host
  /-- The open-file table; object numbers stand for pointers. -/
  openf : Nat → Option Nat
  objects : Nat → Option OpenFile
  nextObject : Nat
  memory : UserMemory
  r2 : Int
  /-- What was written to the console. -/
  output : List Byte

namespace Kernel

/-- The value of `openf[id]`. -/
def slot (k : Kernel) (id : Int) : Exec (Option Nat) := do
  check (0 ≤ id ∧ id < MAX_FILE_OPEN) .outOfBounds
  .ok (k.openf id.toNat)

/-- The object a pointer leads to. -/
def object (k : Kernel) (a : Nat) : Exec OpenFile :=
  match k.objects a with
  | some f => .ok f
  | none => .error .outOfBounds

def setObject (k : Kernel) (a : Nat) (f : OpenFile) : Kernel :=
  { k with objects := Function.update k.objects a (some f) }

/-- `openf[slot] = file` for a new object. -/
def install (k : Kernel) (slot : Nat) (f : OpenFile) : Kernel :=
  { k with
    openf := Function.update k.openf slot (some k.nextObject)
    objects := Function.update k.objects k.nextObject (some f)
    nextObject := k.nextObject + 1 }

/-- `FileSystem::FindFreeSlot`, `none` for -1. -/
def findFreeSlot (k : Kernel) : Option Nat :=
  (List.range' 2 (MAX_FILE_OPEN - 2)).find? fun i => (k.openf i).isNone

/-- `SysCreateFile`. -/
def sysCreateFile (k : Kernel) (filename : List Byte) (grant : Option Nat) : Exec (Int × Kernel) :=
  if filename.length = 0 then .ok (-1, k)
  else do
    let host ← create k.host filename grant
    .ok (0, { k with host })

/-- `SysOpen`: the value written to register 2, if any. -/
def sysOpen (k : Kernel) (filename : List Byte) (type : Int) (grant : Option Nat) :
    Exec (Option Int × Kernel) :=
  match k.findFreeSlot with
  | none => .ok (some (-1), k)
  | some freeSlot =>
    if type = 2 then .ok (some 0, k)
    else if type = 3 then .ok (some 1, k)
    else if type = 0 ∨ type = 1 then do
      let (file, host) ← openType k.host filename type grant
      match file with
      | some f => .ok (some freeSlot, { k with host }.install freeSlot f)
      | none => .ok (none, { k with host })
    else .ok (none, k)

/-- `SysClose`: `delete` closes the descriptor. -/
def sysClose (k : Kernel) (id : Int) : Exec (Int × Kernel) :=
  if 0 ≤ id ∧ id ≤ 14 then
    match k.openf id.toNat with
    | some a => do
      let f ← k.object a
      let host ← Close k.host f.file
      .ok (0, { k with
        host
        openf := Function.update k.openf id.toNat none
        objects := Function.update k.objects a none })
    | none => .ok (-1, k)
  else .ok (-1, k)

/-- `SysRead` once the object is known; `typed` is what the console gives. The type
of an object never changes. -/
def readObject (k : Kernel) (a : Nat) (virtAddr charcount : Int) (typed : List Byte) :
    Exec (Int × Kernel) := do
  let f ← k.object a
  if f.type = 3 then .ok (-1, k)
  else
    let (curPos, f₁) := f.getCurrentPos k.host
    if f.type = 2 then
      let line := typed.take charcount.toNat
      let memory ← k.memory.system2User virtAddr line.length (bufferOf line)
      .ok (line.length, { k.setObject a f₁ with memory })
    else
      let (numRead, data, f₂, host) ← f₁.read k.host charcount
      if numRead > 0 then
        let (newPos, f₃) := f₂.getCurrentPos host
        let memory ← k.memory.system2User virtAddr (int32 (newPos - curPos)) (bufferOf data)
        .ok (int32 (newPos - curPos), { k.setObject a f₃ with host, memory })
      else .ok (-2, { k.setObject a f₂ with host })

/-- `SysRead`. -/
def sysRead (k : Kernel) (virtAddr charcount id : Int) (typed : List Byte) : Exec (Int × Kernel) :=
  if id < 2 ∨ id > MAX_FILE_OPEN then .ok (-1, k)
  else do
    let slot ← k.slot id
    match slot with
    | none => .ok (-1, k)
    | some a => k.readObject a virtAddr charcount typed

/-- `SysWrite` once the object is known: the value written to register 2, if any. -/
def writeObject (k : Kernel) (a : Nat) (virtAddr charcount : Int) : Exec (Option Int × Kernel) := do
  let f ← k.object a
  if f.type = 1 ∨ f.type = 2 then .ok (some (-1), k)
  else
    let (curPos, f₁) := f.getCurrentPos k.host
    let text ← k.memory.user2System virtAddr charcount
    if f.type = 0 then
      let (numWritten, f₂, host) ← f₁.write k.host (bufferOf text) charcount
      if numWritten > 0 then
        let (newPos, f₃) := f₂.getCurrentPos host
        .ok (some (int32 (newPos - curPos)), { k.setObject a f₃ with host })
      else .ok (none, { k.setObject a f₂ with host })
    else if f.type = 3 then
      .ok (some (text.length - 1), { k.setObject a f₁ with output := k.output ++ text })
    else .ok (none, k.setObject a f₁)

/-- `SysWrite`. -/
def sysWrite (k : Kernel) (virtAddr charcount id : Int) : Exec (Option Int × Kernel) :=
  if id < 2 ∨ id > MAX_FILE_OPEN - 1 then .ok (some (-1), k)
  else do
    let slot ← k.slot id
    match slot with
    | none => .ok (some (-1), k)
    | some a => k.writeObject a virtAddr charcount

/-- `(pos == -1) ? Length() : pos`. -/
def seekPosition (k : Kernel) (f : OpenFile) (pos : Int) : Exec (Int × Host) :=
  if pos = -1 then f.length k.host else .ok (pos, k.host)

/-- `SysSeek` once the object is known. -/
def seekObject (k : Kernel) (a : Nat) (pos : Int) : Exec (Int × Kernel) := do
  let f ← k.object a
  let (pos, host) ← k.seekPosition f pos
  let (length, host) ← f.length host
  if pos > length ∨ pos < 0 then .ok (-1, { k with host })
  else
    let (_, f, host) ← f.seek host pos
    .ok (pos, { k.setObject a f with host })

/-- `SysSeek`. -/
def sysSeek (k : Kernel) (pos id : Int) : Exec (Int × Kernel) :=
  if id < 2 ∨ id > MAX_FILE_OPEN then .ok (-1, k)
  else do
    let slot ← k.slot id
    match slot with
    | none => .ok (-1, k)
    | some a => if id = 0 ∨ id = 1 then .ok (-1, k) else k.seekObject a pos

/-- `SysRemove`. -/
def sysRemove (k : Kernel) (filename : List Byte) (permitted : Bool) : Int × Kernel :=
  let (res, host) := remove k.host filename permitted
  (if res then 1 else 0, { k with host })

end Kernel

def MaxFileLength : Int := 32

/-- The system calls, with what the host and the console answer. -/
inductive FileCall where
  /-- User code runs: its memory may become anything. -/
  | user (memory : UserMemory)
  | create (virtAddr : CInt) (grant : Option Nat)
  | remove (virtAddr : CInt) (permitted : Bool)
  | openFile (virtAddr type : CInt) (grant : Option Nat)
  | read (virtAddr size id : CInt) (typed : List Byte)
  | write (virtAddr size id : CInt)
  | seek (position id : CInt)
  | close (id : CInt)

/-- The number passed in register 2 (userprog/syscall.h:26-32). -/
def FileCall.code : FileCall → Int
  | .user _ => 0
  | .create _ _ => 4
  | .remove _ _ => 5
  | .openFile _ _ _ => 6
  | .read _ _ _ _ => 7
  | .write _ _ _ => 8
  | .seek _ _ => 9
  | .close _ => 10

namespace Kernel

/-- The cases of `ExceptionHandler`: the value written to register 2, if any. -/
def handle (k : Kernel) : FileCall → Exec (Option Int × Kernel)
  | .user memory => .ok (none, { k with memory })
  | .create virtAddr grant => do
    let filename ← k.memory.user2System virtAddr.toInt MaxFileLength
    let (res, k) ← k.sysCreateFile filename grant
    .ok (some res, k)
  | .remove virtAddr permitted => do
    let filename ← k.memory.user2System virtAddr.toInt (MaxFileLength + 1)
    let (res, k) := k.sysRemove filename permitted
    .ok (some res, k)
  | .openFile virtAddr type grant => do
    let filename ← k.memory.user2System virtAddr.toInt MaxFileLength
    k.sysOpen filename type.toInt grant
  | .read virtAddr size id typed => do
    check (0 ≤ size.toInt) .badAlloc
    let (res, k) ← k.sysRead virtAddr.toInt size.toInt id.toInt typed
    .ok (some res, k)
  | .write virtAddr size id => do
    check (0 ≤ size.toInt) .badAlloc
    k.sysWrite virtAddr.toInt size.toInt id.toInt
  | .seek position id => do
    let (res, k) ← k.sysSeek position.toInt id.toInt
    .ok (some res, k)
  | .close id => do
    let (res, k) ← k.sysClose id.toInt
    .ok (some res, k)

/-- A `syscall` instruction: register 2 holds the number of the call on entry. -/
def trap (k : Kernel) (e : FileCall) : Exec (Option Int × Kernel) := do
  let (written, k) ← { k with r2 := e.code }.handle e
  .ok (written, { k with r2 := written.getD k.r2 })

/-- The bytes of a file name. -/
def nameOf (text : List Char) : List Byte := text.map fun c => BitVec.ofNat 8 c.toNat

def installIfAny (k : Kernel) (slot : Nat) : Option OpenFile → Kernel
  | some f => k.install slot f
  | none => k

/-- All slots are NULL. -/
def empty (host : Host) (memory : UserMemory) : Kernel where
  host := host
  openf := fun _ => none
  objects := fun _ => none
  nextObject := 0
  memory := memory
  r2 := 0
  output := []

/-- The constructor of the stub `FileSystem`. -/
def boot (host : Host) (memory : UserMemory) (grant : Nat → Option Nat) : Exec Kernel := do
  let host ← create host (nameOf ['s', 't', 'd', 'i', 'n']) (grant 0)
  let host ← create host (nameOf ['s', 't', 'd', 'o', 'u', 't']) (grant 1)
  let (input, host) ← openType host (nameOf ['s', 't', 'd', 'i', 'n']) 2 (grant 2)
  let k := (empty host memory).installIfAny 0 input
  let (output, host) ← openType k.host (nameOf ['s', 't', 'd', 'o', 'u', 't']) 3 (grant 3)
  .ok ({ k with host }.installIfAny 1 output)

end Kernel

/-- A run of system calls, with what an observer notes down. -/
structure Session where
  kernel : Kernel
  /-- The descriptors that were open before the file system was set up. -/
  foreign : Nat → Bool
  /-- How many calls of `Open` have filled a slot, and how many of `Close` have
  emptied one of the slots from 2 on. -/
  opens : Nat
  closes : Nat
  /-- The ids that `Open` returned and that have not been closed since, with the
  types they were opened with. -/
  granted : List (Int × Int)

namespace Session

def noteOpen (s : Session) (type : Int) (written : Option Int) (k : Kernel) : Session :=
  { s with
    kernel := k
    opens := if 2 ≤ written.getD (-1) then s.opens + 1 else s.opens
    granted := if 0 ≤ k.r2 then (k.r2, type) :: s.granted else s.granted }

def noteClose (s : Session) (id : Int) (written : Option Int) (k : Kernel) : Session :=
  { s with
    kernel := k
    closes := if 2 ≤ id ∧ written = some 0 then s.closes + 1 else s.closes
    granted := if written = some 0 then s.granted.filter (·.1 ≠ id) else s.granted }

def note (s : Session) (e : FileCall) (written : Option Int) (k : Kernel) : Session :=
  match e with
  | .openFile _ type _ => s.noteOpen type.toInt written k
  | .close id => s.noteClose id.toInt written k
  | _ => { s with kernel := k }

end Session

/-- All runs of the file system calls. A call that aborts or halts the machine has
no successor. -/
def fileCalls : Machine Session FileCall where
  init s := ∃ host memory grant, Kernel.boot host memory grant = .ok s.kernel ∧
    s = ⟨s.kernel, fun fd => (host.fds fd).isSome, 0, 0, []⟩
  next e s :=
    match s.kernel.trap e with
    | .ok (written, k) => some (s.note e written k)
    | .error _ => none

end NachOS.Stub
