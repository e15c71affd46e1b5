import NachOS.Machine.Encoding
import NachOS.Machine.LoadDelay
import NachOS.Machine.Unaligned
import NachOS.Userprog.ExceptionHandler

/-!
# System calls from user programs (test/start.S, machine/mipssim.cc, machine/machine.cc)

A user program calls a stub of three instructions: the number of the system call goes to
register 2, `syscall` traps into the kernel, `j $31` returns. The assembler puts a no-op into
the delay slot of the jump. The loop of `Machine::Run` executes the stub on the simulated
machine and enters `ExceptionHandler` from `RaiseException`; the clock is left out.

A load that is pending when the stub is entered completes in its first instruction. So the
stub finds its arguments even if the last of them is loaded in the delay slot of the call; a
load of register 2 would take the place of the number.
-/
namespace NachOS.Mips
open NachOS.Lib

/-- The word that a program finds at an address from which it can fetch. -/
structure Memory.Holds (m : Memory) (addr w : Word) : Prop where
  aligned : addr &&& 3 = 0
  mapped : ∃ q, m.mmu.physical addr false = some q
  word : m.cells.word addr = w

/-- Nothing differs but bits that accesses set in the table. -/
structure Memory.Same (m m' : Memory) : Prop where
  mainMemory : m'.mainMemory = m.mainMemory
  table : m'.mmu.cleared = m.mmu.cleared

namespace Memory

variable {m m' : Memory} {addr w : Word}

theorem Same.cells (same : m.Same m') : m'.cells = m.cells := by
  funext a
  unfold Memory.cells byteAt
  rw [Mmu.physical_congr same.table, same.mainMemory]

theorem Same.trans {m'' : Memory} (first : m.Same m') (second : m'.Same m'') : m.Same m'' :=
  ⟨second.mainMemory.trans first.mainMemory, second.table.trans first.table⟩

/-- The word is in four bytes. -/
theorem Holds.keep (holds : m.Holds addr w) (table : m'.mmu.cleared = m.mmu.cleared)
    (bytes : ∀ k < 4, m'.cells (addr + BitVec.ofNat 32 k) = m.cells (addr + BitVec.ofNat 32 k)) :
    m'.Holds addr w := by
  constructor
  · exact holds.aligned
  · rw [Mmu.physical_congr table]
    exact holds.mapped
  · have first := bytes 0 (by decide)
    rw [BitVec.add_zero] at first
    rw [← holds.word]
    unfold Cells.word
    rw [bytes 3 (by decide), bytes 2 (by decide), bytes 1 (by decide), first]

theorem Holds.same (holds : m.Holds addr w) (same : m.Same m') : m'.Holds addr w := by
  apply holds.keep same.table
  intro k _
  rw [same.cells]

end Memory

/-- The word at the program counter is fetched and decoded. -/
theorem State.fetch_holds {s : State} {w : Word} {instr : Instruction}
    (holds : s.memory.Holds (s.registers PCReg) w) (decodes : decode w = .ok instr) :
    ∃ memory, s.fetch = .ok (instr, memory) ∧ s.memory.Same memory := by
  obtain ⟨q, mapped⟩ := holds.mapped
  obtain ⟨p, mmu, translated⟩ := Mmu.translate_aligned mapped
  have address : aligned (s.registers PCReg) = s.registers PCReg := by
    unfold aligned
    rw [holds.aligned]
    exact BitVec.sub_zero _
  rw [address] at translated
  have read : s.memory.readMem (s.registers PCReg) 4 =
      .ok (loaded s.memory.mainMemory p 4, { s.memory with mmu }) :=
    readMem_ok.mpr ⟨.inr (.inr rfl), p, mmu, translated, rfl, rfl⟩
  obtain ⟨value, -, table⟩ := Memory.readMem_cells read
  have fetched : loaded s.memory.mainMemory p 4 = w := value.trans holds.word
  rw [fetched] at read
  refine ⟨{ s.memory with mmu }, ?_, rfl, table⟩
  unfold fetch
  rw [read, Exec.ok_bind]
  simp only [decodes, guarded, Exec.ok_bind]

namespace Registers

variable {r : Registers} {e : Effect} {n : Nat}

/-- A register that the instruction does not write holds what a pending load leaves there. -/
theorem committed_other (boundary : r.AtBoundary) (general : n < 32)
    (other : ∀ register value, e.write = some (register, value) → register ≠ n) :
    (r.committed e).get n = (r.loaded 0 0).get n := by
  have own : (r.written e.write).get n = r.get n := by
    rw [get_eq (by omega), get_eq (by omega)]
    cases write : e.write with
    | none => rfl
    | some w =>
      have apart := other w.1 w.2 write
      exact if_neg apart.symm
  rw [committed_get general, loaded_get boundary general, own]
  by_cases zero : n = 0
  · rw [if_pos zero, if_neg (fun both => both.1 zero), zero]
    exact boundary.zero.symm
  · by_cases pending : n = (r LoadReg).toNat
    · rw [if_neg zero, if_pos pending, if_pos ⟨zero, pending⟩]
    · rw [if_neg zero, if_neg pending, if_neg (fun both => pending both.2)]

theorem committed_self {value : Word} (general : n < 32) (nonzero : n ≠ 0)
    (write : e.write = some (n, value)) (apart : (r LoadReg).toNat ≠ n) :
    (r.committed e).get n = value := by
  rw [committed_get general, if_neg nonzero, if_neg apart.symm, write, get_eq (by omega)]
  exact if_pos rfl

/-- With no load pending there is nothing to complete. -/
theorem loaded_idle (boundary : r.AtBoundary) (idle : r LoadReg = 0) (general : n < 32) :
    (r.loaded 0 0).get n = r.get n := by
  rw [loaded_get boundary general, idle]
  exact if_neg fun both => both.1 both.2

end Registers

section Words

/-- `addiu $2,$0,number`. -/
def addiuWord (number : Nat) : Word := BitVec.ofNat 32 (0x24020000 + number)

def syscallWord : Word := 0x0000000c

/-- `j $31`, which is `jr $31`. -/
def returnWord : Word := 0x03e00008

def nopWord : Word := 0

theorem decode_syscall : decode syscallWord = .ok ⟨.syscall, 0, 0, 0, 0⟩ := by decide

theorem decode_return : decode returnWord = .ok ⟨.jr, 31, 0, 0, 0⟩ := by decide

theorem decode_nop : decode nopWord = .ok ⟨.sll, 0, 0, 0, 0⟩ := by decide

/-- A number that is not negative as an immediate is not changed by the decoding. -/
theorem decode_addiu {number : Nat} (small : number < 2 ^ 15) :
    ∃ rd, decode (addiuWord number) = .ok ⟨.addiu, 0, 2, rd, BitVec.ofNat 32 number⟩ := by
  have value : (addiuWord number).toNat = 0x24020000 + number := by
    unfold addiuWord
    rw [BitVec.toNat_ofNat]
    omega
  have op : (addiuWord number >>> 26 &&& 0x3f).toNat = 9 := by
    rw [field_toNat _ 26 6 _ rfl, value]
    omega
  have rs : (addiuWord number >>> 21 &&& 0x1f).toNat = 0 := by
    rw [field_toNat _ 21 5 _ rfl, value]
    omega
  have rt : (addiuWord number >>> 16 &&& 0x1f).toNat = 2 := by
    rw [field_toNat _ 16 5 _ rfl, value]
    omega
  have low : addiuWord number &&& 0xffff = BitVec.ofNat 32 number := by
    apply BitVec.eq_of_toNat_eq
    have field := field_toNat (addiuWord number) 0 16 0xffff rfl
    rw [BitVec.ushiftRight_zero] at field
    rw [field, value, BitVec.toNat_ofNat]
    omega
  have sign : BitVec.ofNat 32 number &&& 0x8000 = 0 := by
    apply BitVec.eq_of_toNat_eq
    rw [BitVec.toNat_and, BitVec.toNat_ofNat, Nat.mod_eq_of_lt (by omega)]
    apply Nat.eq_of_testBit_eq
    intro i
    change (number &&& 2 ^ 15).testBit i = Nat.testBit 0 i
    rw [Nat.testBit_and, Nat.testBit_two_pow, Nat.zero_testBit]
    by_cases top : 15 = i
    · rw [← top, Nat.testBit_lt_two_pow small]
      rfl
    · rw [decide_eq_false top, Bool.and_false]
  refine ⟨(addiuWord number >>> 11 &&& 0x1f).toNat, ?_⟩
  unfold decode
  simp only [op, rs, rt]
  simp only [opTable, extraField, low, sign]
  rfl

end Words

end NachOS.Mips

namespace NachOS.Userprog
open NachOS.Lib NachOS.Mips NachOS.Filesys

/-- A byte that no address of the buffer leads to is not changed. -/
theorem Reaches.cells {m m' : Memory} {virtAddr a : Word} {n : Nat}
    (reaches : Reaches m m' virtAddr n)
    (injective : m.mmu.Injective) (outside : ∀ j < n, virtAddr + BitVec.ofNat 32 j ≠ a) :
    m'.cells a = m.cells a := by
  unfold Memory.cells Memory.byteAt
  rw [Mmu.physical_congr reaches.mmu]
  cases mapped : m.mmu.physical a false with
  | none => rfl
  | some p =>
    by_cases same : m'.mainMemory p = m.mainMemory p
    · rw [Option.map_some, Option.map_some, same]
    · obtain ⟨j, less, reached⟩ := reaches.inside p same
      exact absurd (injective _ _ p reached mapped) (outside j less)

namespace System

def user (s : System) : Mips.State := ⟨s.registers, s.memory⟩

def withUser (s : System) (user : Mips.State) : System :=
  { s with registers := user.registers, memory := user.memory }

/-- One pass of the loop of `Machine::Run`. -/
def cycle (s : System) (answers : Answers) : Call System := do
  let outcome ← attempt s.user.oneInstruction
  match outcome with
  | .next user => .ok (s.withUser user)
  | .exception which user => (s.withUser user).exceptionHandler answers which

def cycles (answers : Answers) : Nat → System → Call System
  | 0, s => .ok s
  | n + 1, s => do
    let s ← s.cycle answers
    cycles answers n s

variable {s s' : System} {answers : Answers} {w : Word} {instr : Instruction}

/-- An instruction that leaves memory alone and raises no exception. -/
theorem cycle_next (answers : Answers) (effect : Memory → Effect)
    (boundary : s.registers.AtBoundary)
    (holds : s.memory.Holds (s.registers PCReg) w) (decodes : decode w = .ok instr)
    (executed : ∀ m, execute instr (s.user.values instr) m = .ok (effect m))
    (keeps : ∀ m, (effect m).memory = m)
    (alike : ∀ m, s.registers.committed (effect m) = s.registers.committed (effect s.memory)) :
    ∃ memory, s.memory.Same memory ∧ s.cycle answers =
      .ok (s.withUser ⟨s.registers.committed (effect s.memory), memory⟩) := by
  obtain ⟨memory, fetched, same⟩ := State.fetch_holds (s := s.user) holds decodes
  refine ⟨memory, same, ?_⟩
  have done := State.oneInstruction_done (s := s.user) boundary.slot fetched (executed memory)
  unfold cycle
  rw [done, keeps]
  change Except.ok (s.withUser ⟨s.registers.committed (effect memory), memory⟩) = _
  rw [alike]

/-- A system call. -/
theorem cycle_syscall (answers : Answers) (boundary : s.registers.AtBoundary)
    (holds : s.memory.Holds (s.registers PCReg) syscallWord) :
    ∃ memory, s.memory.Same memory ∧ s.cycle answers =
      (s.withUser ⟨Function.update (s.registers.loaded 0 0) BadVAddrReg 0, memory⟩).exceptionHandler
        answers .syscall := by
  obtain ⟨memory, fetched, same⟩ := State.fetch_holds (s := s.user) holds decode_syscall
  refine ⟨memory, same, ?_⟩
  have raised : s.user.oneInstruction = .ok (.exception .syscall
      ⟨Function.update (s.registers.loaded 0 0) BadVAddrReg 0, memory⟩) :=
    State.oneInstruction_raises boundary.slot fetched rfl
  unfold cycle
  rw [raised]
  rfl

/-- The stub for a system call, at address `a`, is entered. -/
structure AtStub (s : System) (a : Word) (number : Nat) : Prop where
  boundary : s.registers.AtBoundary
  pc : s.registers PCReg = a
  nextPC : s.registers NextPCReg = a + 4
  /-- No load of register 2 is pending. -/
  pending : (s.registers LoadReg).toNat ≠ 2
  small : number < 2 ^ 15
  loads : s.memory.Holds a (addiuWord number)
  traps : s.memory.Holds (a + 4) syscallWord
  returns : s.memory.Holds (a + 8) returnWord
  slot : s.memory.Holds (a + 12) nopWord

/-- What a function finds in a register: a pending load of its caller completes. -/
def argument (s : System) (n : Nat) : Word := (s.registers.loaded 0 0).get n

/-- A state that differs in register 2 and the program counters alone, as the caller sees it. -/
structure KeepsRegisters (s s' : System) : Prop where
  general : ∀ n < 32, n ≠ 2 → s'.readRegister n = s.argument n
  hi : s'.registers HiReg = s.registers HiReg
  lo : s'.registers LoReg = s.registers LoReg
  boundary : s'.registers.AtBoundary
  idle : s'.registers LoadReg = 0

/-- The state in which the stub enters the kernel. -/
structure Enters (s : System) (a : Word) (number : Nat) (s₁ : System) : Prop where
  number : s₁.readRegister 2 = BitVec.ofNat 32 number
  registers : s.KeepsRegisters s₁
  pc : s₁.registers PCReg = a + 4
  memory : s.memory.Same s₁.memory
  files : s₁.files = s.files
  input : s₁.input = s.input
  output : s₁.output = s.output

/-- The effect of the first instruction. -/
def numberEffect (s : System) (number : Nat) (m : Memory) : Effect :=
  (Effect.plain (s.user.values ⟨.addiu, 0, 2, 0, BitVec.ofNat 32 number⟩) m).assign 2
    (s.registers.get 0 + BitVec.ofNat 32 number)

/-- The registers after the first instruction. -/
theorem AtStub.numbered {a : Word} {number : Nat} (here : s.AtStub a number) (m : Memory) :
    (s.registers.committed (s.numberEffect number m)).Settled ∧
      (s.registers.committed (s.numberEffect number m)).get 2 = BitVec.ofNat 32 number ∧
      ∀ n < 32, n ≠ 2 →
        (s.registers.committed (s.numberEffect number m)).get n = s.argument n := by
  have boundary := here.boundary
  refine ⟨⟨rfl, rfl, rfl⟩, ?_, ?_⟩
  · apply Registers.committed_self (by decide) (by decide) _ here.pending
    have zero : s.registers.get 0 = 0 := boundary.zero
    have sum : (0 : Word) + BitVec.ofNat 32 number = BitVec.ofNat 32 number := BitVec.zero_add _
    unfold numberEffect
    rw [zero, sum]
    rfl
  · intro n general other
    apply Registers.committed_other boundary general
    intro register value write
    cases write
    exact other.symm

/-- The first two instructions lead to the handler. -/
theorem AtStub.enters {a : Word} {number : Nat} (here : s.AtStub a number) (answers : Answers) :
    ∃ s₁, s.Enters a number s₁ ∧ ∀ n, s.cycles answers (n + 2) =
      (s₁.exceptionHandler answers .syscall >>= cycles answers n) := by
  obtain ⟨rd, decodes⟩ := decode_addiu here.small
  obtain ⟨m₁, same₁, first⟩ := cycle_next answers (s.numberEffect number)
    here.boundary (by rw [here.pc]; exact here.loads) decodes (fun _ => rfl) (fun _ => rfl)
    (fun _ => rfl)
  obtain ⟨settled, numbered, general⟩ := here.numbered s.memory
  generalize registers : s.registers.committed (s.numberEffect number s.memory) = r at *
  have pc : r PCReg = a + 4 := by
    rw [← here.nextPC, ← registers]
    rfl
  have unchanged : r HiReg = s.registers HiReg ∧ r LoReg = s.registers LoReg := by
    rw [← registers]
    exact ⟨rfl, rfl⟩
  obtain ⟨m₂, same₂, second⟩ := cycle_syscall (s := s.withUser ⟨r, m₁⟩) answers
    ⟨settled.zero, settled.slot⟩ (by
      change m₁.Holds (r PCReg) syscallWord
      rw [pc]
      exact here.traps.same same₁)
  change m₁.Same m₂ at same₂
  have kept : ∀ n < 32,
      Registers.get (Function.update (r.loaded 0 0) BadVAddrReg 0) n = r.get n := by
    intro n small
    rw [Registers.get_update_special (by decide) small, settled.loaded]
  have special : ∀ i, i ≠ BadVAddrReg →
      Function.update (r.loaded 0 0) BadVAddrReg 0 i = r i := by
    intro i other
    rw [Function.update_of_ne other, settled.loaded]
  refine ⟨_, ?_, fun n => by rw [cycles, first, Exec.ok_bind, cycles, second]⟩
  constructor
  · exact (kept 2 (by decide)).trans numbered
  · constructor
    · exact fun n small other => (kept n small).trans (general n small other)
    · exact (special HiReg (by decide)).trans unchanged.1
    · exact (special LoReg (by decide)).trans unchanged.2
    · exact r.loaded_atBoundary.update 0 (by decide) (by decide)
    · exact (special LoadReg (by decide)).trans settled.load
  · exact (special PCReg (by decide)).trans pc
  · exact same₁.trans same₂
  · rfl
  · rfl
  · rfl

/-- The bytes from address `a` on are not in the buffer of a call that reads input. -/
def BufferApart (s : System) (a : Word) (number : Nat) : Prop :=
  number = 7 ∨ number = 48 → ∀ j : Nat, (j : Int) < (s.argument 5).toInt →
    ∀ k < 8, s.argument 4 + BitVec.ofNat 32 j ≠ a + 8 + BitVec.ofNat 32 k

/-- The state in which the kernel returns to the stub. -/
structure Handled (s s₂ : System) (a : Word) : Prop where
  pc : s₂.registers PCReg = a + 8
  nextPC : s₂.registers NextPCReg = a + 12
  registers : s.KeepsRegisters s₂
  returns : s₂.memory.Holds (a + 8) returnWord
  slot : s₂.memory.Holds (a + 12) nopWord

theorem AtStub.handled {a : Word} {number : Nat} {s₁ s₂ : System} (here : s.AtStub a number)
    (injective : s.memory.mmu.Injective) (apart : s.BufferApart a number)
    (enters : s.Enters a number s₁) (run : s₁.exceptionHandler answers .syscall = .ok s₂) :
    s.Handled s₂ a := by
  unfold exceptionHandler at run
  dsimp only at run
  split at run
  next call found =>
    obtain ⟨s₃, body, rest⟩ := Exec.bind_eq_ok.mp run
    cases rest
    have frame := syscallBody_frame body
    have returns : call ≠ .halt := by
      rintro rfl
      cases body
    have value : (s₁.readRegister 2).toInt = number := by
      have small := here.small
      have unsigned : (BitVec.ofNat 32 number).toNat = number := by
        rw [BitVec.toNat_ofNat]
        omega
      rw [enters.number, BitVec.toInt_eq_toNat_of_lt (by omega), unsigned]
    obtain ⟨_, reads⟩ := lookup_number found returns
    rw [value] at reads
    obtain ⟨pc, nextPC, _, others⟩ := s₃.increasePC_registers
    have same : ∀ i : Fin 40, i.val ≠ 2 → i ≠ PCReg → i ≠ NextPCReg → i ≠ PrevPCReg →
        s₃.increasePC.registers i = s₁.registers i :=
      fun i notTwo notPC notNext notPrev =>
        (others i notPC notNext notPrev).trans (frame.registers i notTwo)
    have counter : s₃.registers PCReg = a + 4 :=
      (frame.registers PCReg (by decide)).trans enters.pc
    have table : s₃.increasePC.memory.mmu.cleared = s.memory.mmu.cleared :=
      frame.memory.mmu.trans enters.memory.table
    have bytes : ∀ k < 8, s₃.increasePC.memory.cells (a + 8 + BitVec.ofNat 32 k) =
        s.memory.cells (a + 8 + BitVec.ofNat 32 k) := by
      intro k hk
      rw [← enters.memory.cells]
      apply frame.memory.cells (injective.congr enters.memory.table)
      intro j less
      unfold SystemCall.span at less
      rw [enters.registers.general 4 (by decide) (by decide)]
      rw [enters.registers.general 5 (by decide) (by decide)] at less
      split at less
      next reader =>
        have known : number = 7 ∨ number = 48 := by
          have := reads reader
          omega
        exact apart known j (by omega) k hk
      next => omega
    constructor
    · rw [pc, counter, BitVec.add_assoc]
      rfl
    · rw [nextPC, counter, BitVec.add_assoc]
      rfl
    · constructor
      · intro n general other
        have general' := enters.registers.general n general other
        unfold readRegister at general' ⊢
        rw [Registers.get_eq (by omega)] at general' ⊢
        rw [← general']
        apply same _ other <;> exact general_ne_special general (by decide)
      · exact (same HiReg (by decide) (by decide) (by decide) (by decide)).trans
          enters.registers.hi
      · exact (same LoReg (by decide) (by decide) (by decide) (by decide)).trans
          enters.registers.lo
      · constructor
        · exact (same 0 (by decide) (by decide) (by decide) (by decide)).trans
            enters.registers.boundary.zero
        · unfold Registers.SlotInRange
          rw [same LoadReg (by decide) (by decide) (by decide) (by decide)]
          exact enters.registers.boundary.slot
      · exact (same LoadReg (by decide) (by decide) (by decide) (by decide)).trans
          enters.registers.idle
    · exact here.returns.keep table fun k hk => bytes k (by omega)
    · apply here.slot.keep table
      intro k hk
      have address : a + 12 + BitVec.ofNat 32 k = a + 8 + BitVec.ofNat 32 (4 + k) := by
        bv_omega
      rw [address]
      exact bytes (4 + k) (by omega)
  next => cases run

/-- The user program goes on behind the call of the stub, with the result in register 2. -/
structure ReturnsFrom (s s₂ s' : System) : Prop where
  pc : s'.registers PCReg = s.argument 31
  nextPC : s'.registers NextPCReg = s.argument 31 + 4
  result : s'.readRegister 2 = s₂.readRegister 2
  registers : s.KeepsRegisters s'
  memory : s₂.memory.Same s'.memory
  files : s'.files = s₂.files
  input : s'.input = s₂.input
  output : s'.output = s₂.output

/-- An instruction that writes no register but register 0, with no load pending. -/
theorem general_kept {e : Effect} (boundary : s.registers.AtBoundary)
    (idle : s.registers LoadReg = 0)
    (own : ∀ register value, e.write = some (register, value) → register = 0) {n : Nat}
    (general : n < 32) : (s.registers.committed e).get n = s.registers.get n := by
  by_cases zero : n = 0
  · rw [zero]
    exact boundary.zero.symm
  · rw [Registers.committed_other boundary general, Registers.loaded_idle boundary idle general]
    intro register value write same
    exact zero (same ▸ own register value write)

/-- An instruction that moves the program counters and changes nothing else. -/
structure Passes (s s' : System) (pcAfter : Word) : Prop where
  pc : s'.registers PCReg = s.registers NextPCReg
  nextPC : s'.registers NextPCReg = pcAfter
  general : ∀ n < 32, s'.readRegister n = s.readRegister n
  hi : s'.registers HiReg = s.registers HiReg
  lo : s'.registers LoReg = s.registers LoReg
  boundary : s'.registers.AtBoundary
  idle : s'.registers LoadReg = 0
  memory : s.memory.Same s'.memory
  others : s'.files = s.files ∧ s'.input = s.input ∧ s'.output = s.output

/-- `effect` moves the program counters alone. -/
structure OnlyMoves (s : System) (effect : Memory → Effect) : Prop where
  memory : ∀ m, (effect m).memory = m
  write : ∀ register value, (effect s.memory).write = some (register, value) → register = 0
  load : (effect s.memory).load = (0, 0)
  hi : (effect s.memory).hi = s.registers HiReg
  lo : (effect s.memory).lo = s.registers LoReg
  alike : ∀ m, s.registers.committed (effect m) = s.registers.committed (effect s.memory)

theorem cycle_passes (answers : Answers) (effect : Memory → Effect)
    (boundary : s.registers.AtBoundary) (idle : s.registers LoadReg = 0)
    (holds : s.memory.Holds (s.registers PCReg) w) (decodes : decode w = .ok instr)
    (executed : ∀ m, execute instr (s.user.values instr) m = .ok (effect m))
    (moves : s.OnlyMoves effect) :
    ∃ s', s.cycle answers = .ok s' ∧ s.Passes s' (effect s.memory).pcAfter := by
  obtain ⟨memory, same, run⟩ := cycle_next answers effect boundary holds decodes executed
    moves.memory moves.alike
  have inRange : (effect s.memory).InRange := by
    constructor
    · intro register value write
      rw [moves.write register value write]
      decide
    · rw [moves.load]
      decide
  refine ⟨_, run, ?_⟩
  constructor
  · rfl
  · rfl
  · exact fun n general => general_kept boundary idle moves.write general
  · exact moves.hi
  · exact moves.lo
  · exact Registers.committed_atBoundary inRange
  · change BitVec.ofNat 32 (effect s.memory).load.1 = 0
    rw [moves.load]
    rfl
  · exact same
  · exact ⟨rfl, rfl, rfl⟩

/-- `j $31`. -/
theorem cycle_return (answers : Answers) (boundary : s.registers.AtBoundary)
    (idle : s.registers LoadReg = 0)
    (holds : s.memory.Holds (s.registers PCReg) returnWord) :
    ∃ s', s.cycle answers = .ok s' ∧ s.Passes s' (s.readRegister 31) := by
  apply cycle_passes answers (fun m => (Effect.plain (s.user.values ⟨.jr, 31, 0, 0, 0⟩) m).goto
    (s.readRegister 31)) boundary idle holds decode_return (fun _ => rfl)
  exact {
    memory := fun _ => rfl
    write := fun _ _ write => by cases write
    load := rfl
    hi := rfl
    lo := rfl
    alike := fun _ => rfl }

theorem cycle_nop (answers : Answers) (boundary : s.registers.AtBoundary)
    (idle : s.registers LoadReg = 0)
    (holds : s.memory.Holds (s.registers PCReg) nopWord) :
    ∃ s', s.cycle answers = .ok s' ∧ s.Passes s' (s.registers NextPCReg + 4) := by
  have shifted : ∀ m, execute ⟨.sll, 0, 0, 0, 0⟩ (s.user.values ⟨.sll, 0, 0, 0, 0⟩) m =
      .ok ((Effect.plain (s.user.values ⟨.sll, 0, 0, 0, 0⟩) m).assign 0
        ((s.user.values ⟨.sll, 0, 0, 0, 0⟩).rt <<< (0 : Word).toNat)) := fun _ => rfl
  apply cycle_passes answers _ boundary idle holds decode_nop shifted
  exact {
    memory := fun _ => rfl
    write := fun _ _ write => by
      cases write
      rfl
    load := rfl
    hi := rfl
    lo := rfl
    alike := fun _ => rfl }

/-- The last two instructions lead back to the caller. -/
theorem Handled.back {a : Word} {s₂ : System} (handled : s.Handled s₂ a) (answers : Answers) :
    ∃ s', cycles answers 2 s₂ = .ok s' ∧ s.ReturnsFrom s₂ s' := by
  obtain ⟨pc, nextPC, kept, returns, slot⟩ := handled
  rw [← pc] at returns
  obtain ⟨s₃, jump, first⟩ := cycle_return answers kept.boundary kept.idle returns
  have here : s₃.memory.Holds (s₃.registers PCReg) nopWord := by
    rw [first.pc, nextPC]
    exact slot.same first.memory
  obtain ⟨s', nop, second⟩ := cycle_nop answers first.boundary first.idle here
  have general : ∀ n < 32, s'.readRegister n = s₂.readRegister n :=
    fun n small => (second.general n small).trans (first.general n small)
  have link : s₂.readRegister 31 = s.argument 31 := kept.general 31 (by decide) (by decide)
  refine ⟨s', ?_, ?_⟩
  · simp only [cycles, jump, nop, Exec.ok_bind]
  · constructor
    · rw [second.pc, first.nextPC, link]
    · rw [second.nextPC, first.nextPC, link]
    · exact general 2 (by decide)
    · constructor
      · exact fun n small other => (general n small).trans (kept.general n small other)
      · exact second.hi.trans (first.hi.trans kept.hi)
      · exact second.lo.trans (first.lo.trans kept.lo)
      · exact second.boundary
      · exact second.idle
    · exact first.memory.trans second.memory
    · exact second.others.1.trans first.others.1
    · exact second.others.2.1.trans first.others.2.1
    · exact second.others.2.2.trans first.others.2.2

end System

/-- From the entry of a stub on, four instructions of the simulated machine are the system
call: what the handler does to the state in which it is entered, and nothing else but the
return to the caller. An interruption of the handler is one of the program. -/
theorem stub_call {s : System} {a : Word} {number : Nat} (answers : Answers)
    (here : s.AtStub a number) (injective : s.memory.mmu.Injective)
    (apart : s.BufferApart a number) :
    ∃ s₁, s.Enters a number s₁ ∧
      (∀ i, s₁.exceptionHandler answers .syscall = .error i →
        System.cycles answers 4 s = .error i) ∧
      (∀ s₂, s₁.exceptionHandler answers .syscall = .ok s₂ →
        ∃ s', System.cycles answers 4 s = .ok s' ∧ s.ReturnsFrom s₂ s') := by
  obtain ⟨s₁, enters, rest⟩ := here.enters answers
  refine ⟨s₁, enters, ?_, ?_⟩
  · intro i stops
    rw [rest 2, stops]
    rfl
  · intro s₂ run
    obtain ⟨s', back, returns⟩ := (here.handled injective apart enters run).back answers
    exact ⟨s', by rw [rest 2, run, Exec.ok_bind, back], returns⟩

/-- `Add(3, 39)` from address 64; the second argument is loaded in the delay slot. -/
def addCall : System where
  registers := fun i =>
    if i.val = 4 then 3 else if i.val = 31 then 64 else if i = NextPCReg then 4
    else if i = LoadReg then 5 else if i = LoadValueReg then 39 else 0
  memory := programMemory [addiuWord 42, syscallWord, returnWord, nopWord]
  files := Stub.Kernel.empty
    ⟨fun _ => none, fun _ => [], fun _ => none, 0⟩ ⟨fun _ => 0, fun _ => false, fun _ => false⟩
  input := []
  output := []

theorem addCall_atStub : addCall.AtStub 0 42 := by
  have mapped : ∀ a : Word, a.toNat < PageSize →
      addCall.memory.mmu.physical a false = some (0 * PageSize + a.toNat % PageSize) := by
    intro a inside
    apply Mmu.physical_eq_some.mpr
    refine ⟨0, ⟨0, 0, true, false, false, false⟩, ⟨?_, rfl, rfl, by decide⟩, rfl⟩
    rw [Nat.div_eq_of_lt inside]
    rfl
  constructor
  · have slot : (addCall.registers LoadReg).toNat < 32 := by decide
    exact ⟨by decide, slot⟩
  · decide
  · decide
  · decide
  · decide
  · exact ⟨by decide, ⟨_, mapped 0 (by decide)⟩, by decide +kernel⟩
  · exact ⟨by decide, ⟨_, mapped 4 (by decide)⟩, by decide +kernel⟩
  · exact ⟨by decide, ⟨_, mapped 8 (by decide)⟩, by decide +kernel⟩
  · exact ⟨by decide, ⟨_, mapped 12 (by decide)⟩, by decide +kernel⟩

theorem addCall_injective : addCall.memory.mmu.Injective := by
  apply DistinctFrames.injective
  intro i j entry other first second _ _ _
  have here := (List.getElem?_eq_some_iff.mp first).1
  have there := (List.getElem?_eq_some_iff.mp second).1
  simp only [List.length_singleton] at here there
  omega

theorem stub_call_add : ∃ s', System.cycles ⟨none, false, 0⟩ 4 addCall = .ok s' ∧
    s'.readRegister 2 = 42 ∧ s'.registers PCReg = 64 := by
  have apart : addCall.BufferApart 0 42 := by
    rintro (reads | reads) <;> cases reads
  obtain ⟨s₁, enters, -, ends⟩ :=
    stub_call ⟨none, false, 0⟩ addCall_atStub addCall_injective apart
  have first := enters.registers.general 4 (by decide) (by decide)
  have second := enters.registers.general 5 (by decide) (by decide)
  have run : s₁.exceptionHandler ⟨none, false, 0⟩ .syscall =
      .ok (s₁.writeResult ((s₁.readRegister 4).toInt + (s₁.readRegister 5).toInt)).increasePC := by
    unfold System.exceptionHandler
    rw [enters.number]
    rfl
  obtain ⟨s', done, returns⟩ := ends _ run
  refine ⟨s', done, ?_, returns.pc.trans (by decide)⟩
  rw [returns.result, first, second]
  change BitVec.ofInt 32 ((addCall.argument 4).toInt + (addCall.argument 5).toInt) = 42
  decide

end NachOS.Userprog
