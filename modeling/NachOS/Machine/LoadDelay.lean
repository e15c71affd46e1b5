import NachOS.Machine.MipsSim

/-!
# The load delay slot (machine/mipssim.cc:711-718, threads/thread.cc:375-396)

A load leaves its value in the slot, and `DelayedLoad` writes the register when
the next instruction has written its own result, or earlier if an interrupt is
taken in between. `flush` is the register set with the pending load completed,
the view in which runs are compared.

The development has one central fact, `attempt_flush`: an instruction that
neither reads nor itself writes the register of the pending load has the same
result whether the slot is full or was flushed before it. What a run computes is
then independent of the interrupts and switches taken, and equal to the result of
a machine whose loads write their register immediately.
-/
namespace NachOS.Mips
open NachOS.Lib

section Operands

/-- Does the instruction read `registers[rs]`? -/
def Op.readsRs : Op → Bool
  | .j | .jal | .lui | .mfhi | .mflo | .sll | .sra | .srl => false
  | .syscall | .unimp | .res | .rfe | .special | .bcond => false
  | _ => true

/-- Does the instruction read `registers[rt]`, other than to merge into it? -/
def Op.readsRt : Op → Bool
  | .add | .addu | .and | .beq | .bne | .div | .divu | .mult | .multu | .nor | .or => true
  | .sb | .sh | .sll | .sllv | .slt | .sltu | .sra | .srav | .srl | .srlv => true
  | .sub | .subu | .sw | .swl | .swr | .xor => true
  | _ => false

/-- The instruction reads register `n` (`LWL` and `LWR` merging excepted). -/
def Instruction.Reads (instr : Instruction) (n : Nat) : Prop :=
  (instr.opCode.readsRs = true ∧ instr.rs = n) ∨ (instr.opCode.readsRt = true ∧ instr.rt = n)

instance (instr : Instruction) (n : Nat) : Decidable (instr.Reads n) :=
  inferInstanceAs (Decidable (_ ∨ _))

/-- The register that the instruction itself writes, loads not counted. -/
def Instruction.target (instr : Instruction) : Option Nat :=
  match instr.opCode with
  | .add | .addu | .and | .mfhi | .mflo | .nor | .or | .sll | .sllv | .slt | .sltu | .sra | .srav
  | .srl | .srlv | .sub | .subu | .xor | .jalr => some instr.rd
  | .addi | .addiu | .andi | .lui | .ori | .slti | .sltiu | .xori => some instr.rt
  | .bgezal | .bltzal | .jal => some 31
  | _ => none

variable {instr : Instruction} {v v' : Operands} {m : Memory}

/-- A load to r0 loads nothing. -/
def Effect.settle (e : Effect) : Effect :=
  if e.load.1 = 0 then { e with load := (0, 0) } else e

theorem loadPart_zero (merge : Word → Word → Word → Word) (zero : instr.rt = 0)
    (rs : v.rs = v'.rs) (hi : v.hi = v'.hi) (lo : v.lo = v'.lo) (nextPC : v.nextPC = v'.nextPC) :
    (loadPart instr v m merge).map Effect.settle = (loadPart instr v' m merge).map Effect.settle := by
  simp only [loadPart, rs]
  generalize m.readMem (v'.rs + instr.extra - (v'.rs + instr.extra &&& 3)) 4 = x
  cases x with
  | error stop => rfl
  | ok r =>
    simp only [Exec.ok_bind, Except.map, Effect.settle, Effect.delayed, Effect.plain, zero, hi, lo,
      nextPC, if_true]

/-- The effect depends on the operands that are read, and on the merged value
unless it is merged into r0. -/
theorem execute_congr (rs : instr.opCode.readsRs = true → v.rs = v'.rs)
    (rt : instr.opCode.readsRt = true → v.rt = v'.rt) (hi : v.hi = v'.hi) (lo : v.lo = v'.lo)
    (nextPC : v.nextPC = v'.nextPC) (merged : instr.rt = 0 ∨ v.merged = v'.merged) :
    (execute instr v m).map Effect.settle = (execute instr v' m).map Effect.settle := by
  obtain ⟨vrs, vrt, vhi, vlo, vpc, vm⟩ := v
  obtain ⟨vrs', vrt', vhi', vlo', vpc', vm'⟩ := v'
  simp only at rs rt hi lo nextPC merged
  subst hi lo nextPC
  unfold execute
  cases op : instr.opCode
  case add | addu | and | beq | bne | div | divu | mult | multu | nor | or | sb | sh | sllv | slt
      | sltu | srav | srlv | sub | subu | sw | swl | swr | xor =>
    have sameRs := rs (by rw [op]; rfl)
    have sameRt := rt (by rw [op]; rfl)
    subst sameRs sameRt
    rfl
  case addi | addiu | andi | bgez | bgezal | bgtz | blez | bltz | bltzal | jalr | jr | lb | lbu | lh
      | lhu | lw | mthi | mtlo | ori | slti | sltiu | xori =>
    have sameRs := rs (by rw [op]; rfl)
    subst sameRs
    rfl
  case sll | sra | srl =>
    have sameRt := rt (by rw [op]; rfl)
    subst sameRt
    rfl
  case j | jal | lui | mfhi | mflo | syscall | unimp | res | rfe | special | bcond => rfl
  case lwl | lwr =>
    have sameRs := rs (by rw [op]; rfl)
    subst sameRs
    rcases merged with zero | same
    · exact loadPart_zero _ zero rfl rfl rfl rfl
    · subst same
      rfl

/-- The effects of one run of the switch, by the register they write. -/
def Targets (target : Option Nat) (x : Attempt Effect) : Prop :=
  ∀ e, x = .ok e → e.write.map Prod.fst = target

theorem targets_ok {target : Option Nat} {e : Effect} (h : e.write.map Prod.fst = target) :
    Targets target (.ok e) := by
  intro e' done
  cases done
  exact h

theorem targets_bind {α : Type} {target : Option Nat} {x : Attempt α} {f : α → Attempt Effect}
    (rest : ∀ a, Targets target (f a)) : Targets target (x >>= f) := by
  intro e done
  obtain ⟨a, -, run⟩ := Exec.bind_eq_ok.mp done
  exact rest a e run

theorem targets_error {target : Option Nat} {stop : Stop} : Targets target (.error stop) := by
  intro e done
  cases done

theorem targets_ite {target : Option Nat} {c : Prop} [Decidable c] {x y : Attempt Effect}
    (yes : Targets target x) (no : Targets target y) : Targets target (if c then x else y) := by
  split
  · exact yes
  · exact no

theorem Effect.branch_write (e : Effect) (taken : Prop) [Decidable taken] (v : Operands)
    (extra : Word) : (e.branch taken v extra).write = e.write := by
  unfold Effect.branch
  split <;> rfl

theorem execute_targets : Targets instr.target (execute instr v m) := by
  unfold execute Instruction.target
  cases op : instr.opCode
  case add | addi | sub => exact targets_ite targets_error (targets_ok rfl)
  case addiu | addu | and | andi | lui | mfhi | mflo | nor | or | ori | sll | sllv | slt | slti
      | sltiu | sltu | sra | srav | srl | srlv | subu | xor | xori | j | jal | jalr | jr | mthi
      | mtlo | mult | multu => exact targets_ok rfl
  case beq | bgez | bgtz | blez | bltz | bne | bgezal | bltzal =>
    exact targets_ok (by rw [Effect.branch_write]; rfl)
  case div => exact targets_ite (targets_ok rfl) (targets_ite targets_error (targets_ok rfl))
  case divu => exact targets_ite (targets_ok rfl) (targets_ok rfl)
  case lb | lbu | lwl | lwr => exact targets_bind fun _ => targets_ok rfl
  case lh | lhu | lw => exact targets_ite targets_error (targets_bind fun _ => targets_ok rfl)
  case sb | sh | sw => exact targets_bind fun _ => targets_ok rfl
  case swl | swr => exact targets_bind fun _ => targets_bind fun _ => targets_ok rfl
  case syscall | unimp | res | rfe | special | bcond => exact targets_error

end Operands

section Flush

variable {r : Registers} {e : Effect}

/-- The pending load completed. -/
def State.flush (s : State) : State := { s with registers := s.registers.loaded 0 0 }

theorem Registers.loaded_get {n : Nat} (boundary : r.AtBoundary) (general : n < 32) :
    (r.loaded 0 0).get n =
      if n ≠ 0 ∧ n = (r LoadReg).toNat then r LoadValueReg else r.get n := by
  have load : (LoadReg : Fin 40).val = 37 := rfl
  have value : (LoadValueReg : Fin 40).val = 38 := rfl
  rw [Registers.get_eq (by omega), Registers.get_eq (by omega)]
  unfold Registers.loaded
  by_cases zero : n = 0
  · subst zero
    have : (⟨0, by omega⟩ : Fin 40) = 0 := rfl
    rw [this, if_pos rfl, if_neg (by simp), boundary.zero]
  · rw [if_neg (by simp [Fin.ext_iff, zero]), if_neg (by simp only [Fin.ext_iff]; omega),
      if_neg (by simp only [Fin.ext_iff]; omega)]
    simp only [zero, ne_eq, not_false_eq_true, true_and]

/-- The registers of a run, with the load of the last instruction completed. -/
theorem Registers.loaded_committed (slot : e.InRange) (i : Fin 40) :
    (r.committed e).loaded 0 0 i =
      if i = 0 ∨ i = LoadReg ∨ i = LoadValueReg then 0
      else if i.val = e.load.1 then e.load.2
      else r.committed e i := by
  have bound := slot.load
  have load : (r.committed e LoadReg).toNat = e.load.1 := by
    have : r.committed e LoadReg = BitVec.ofNat 32 e.load.1 := rfl
    rw [this, BitVec.toNat_ofNat]
    omega
  have value : r.committed e LoadValueReg = e.load.2 := rfl
  unfold Registers.loaded
  rw [load, value]
  by_cases zero : i = 0
  · simp [zero]
  by_cases isLoad : i = LoadReg
  · simp [isLoad]
  by_cases isValue : i = LoadValueReg
  · simp [isValue]
  simp [zero, isLoad, isValue]

theorem Registers.loaded_committed_settle (inRange : e.InRange) :
    (r.committed e.settle).loaded 0 0 = (r.committed e).loaded 0 0 := by
  unfold Effect.settle
  split
  next zero =>
    have inRange' : Effect.InRange { e with load := (0, 0) } := ⟨inRange.write, by simp⟩
    funext i
    rw [Registers.loaded_committed inRange', Registers.loaded_committed inRange]
    by_cases special : i = 0 ∨ i = LoadReg ∨ i = LoadValueReg
    · rw [if_pos special, if_pos special]
    · rw [if_neg special, if_neg special]
      have : i.val ≠ 0 := fun h => special (.inl (Fin.ext h))
      rw [if_neg this, if_neg (by omega)]
      have notLoad : i ≠ LoadReg := fun h => special (.inr (.inl h))
      have notValue : i ≠ LoadValueReg := fun h => special (.inr (.inr h))
      simp only [Registers.committed, if_neg notLoad, if_neg notValue]
  next => rfl

theorem Registers.written_loaded {write : Option (Nat × Word)} {i : Fin 40} (zero : i ≠ 0)
    (notLoad : i ≠ LoadReg) (notValue : i ≠ LoadValueReg)
    (apart : i.val = (r LoadReg).toNat → write.map Prod.fst ≠ some i.val) :
    (r.loaded 0 0).written write i =
      if i.val = (r LoadReg).toNat then r LoadValueReg else r.written write i := by
  have value : r.loaded 0 0 i =
      if i.val = (r LoadReg).toNat then r LoadValueReg else r i := by
    unfold Registers.loaded
    rw [if_neg zero, if_neg notLoad, if_neg notValue]
  cases write with
  | none => exact value
  | some w =>
    obtain ⟨register, x⟩ := w
    simp only [Registers.written, value]
    by_cases pending : i.val = (r LoadReg).toNat
    · have : i.val ≠ register := fun h => apart pending (by simp [h])
      rw [if_neg this, if_pos pending, if_pos pending]
    · rw [if_neg pending, if_neg pending]

/-- The order of the two writes does not matter when they go to different
registers. -/
theorem Registers.committed_loaded (boundary : r.AtBoundary)
    (apart : (r LoadReg).toNat ≠ 0 →
      e.write.map Prod.fst ≠ some (r LoadReg).toNat) :
    (r.loaded 0 0).committed e = r.committed e := by
  have slot := boundary.slot
  unfold Registers.SlotInRange at slot
  have special : ∀ i : Fin 40, 32 ≤ i.val → i ≠ LoadReg → i ≠ LoadValueReg →
      r.loaded 0 0 i = r i :=
    fun i high notLoad notValue => Registers.loaded_special slot high notLoad notValue 0 0
  funext i
  unfold Registers.committed
  rw [special NextPCReg (by decide) (by decide) (by decide),
    special PCReg (by decide) (by decide) (by decide)]
  by_cases zero : i = 0
  · subst zero
    rfl
  by_cases isLoad : i = LoadReg
  · subst isLoad
    rfl
  by_cases isValue : i = LoadValueReg
  · subst isValue
    rfl
  have empty : (r.loaded 0 0 LoadReg).toNat = 0 := rfl
  have nonzero : i.val ≠ 0 := fun h => zero (Fin.ext h)
  have apart' : i.val = (r LoadReg).toNat → e.write.map Prod.fst ≠ some i.val := by
    intro pending
    rw [pending]
    exact apart (by omega)
  rw [empty, if_neg nonzero, Registers.written_loaded zero isLoad isValue apart']

end Flush

section Slot

/-- The instruction after a load does not read the register that the load targets. -/
def State.NoRead (s : State) : Prop :=
  match s.fetch with
  | .ok (instr, _) =>
    (s.registers LoadReg).toNat ≠ 0 → ¬ instr.Reads (s.registers LoadReg).toNat
  | .error _ => True

/-- The instruction after a load does not itself write the register that the load
targets; another load to it is no such write. -/
def State.NoWrite (s : State) : Prop :=
  match s.fetch with
  | .ok (instr, _) =>
    (s.registers LoadReg).toNat ≠ 0 → instr.target ≠ some (s.registers LoadReg).toNat
  | .error _ => True

instance (s : State) : Decidable s.NoRead :=
  match h : s.fetch with
  | .ok (instr, _) => decidable_of_iff
      ((s.registers LoadReg).toNat ≠ 0 → ¬ instr.Reads (s.registers LoadReg).toNat)
      (by simp [State.NoRead, h])
  | .error _ => isTrue (by simp [State.NoRead, h])

instance (s : State) : Decidable s.NoWrite :=
  match h : s.fetch with
  | .ok (instr, _) => decidable_of_iff
      ((s.registers LoadReg).toNat ≠ 0 → instr.target ≠ some (s.registers LoadReg).toNat)
      (by simp [State.NoWrite, h])
  | .error _ => isTrue (by simp [State.NoWrite, h])

/-- What can be seen of the end of an instruction: the register that its own load
targets, and the state with that load completed. -/
def settled : Attempt State → Option (Word × State)
  | .ok s => some (s.registers LoadReg, s.flush)
  | .error _ => none

variable {s s' : State}

theorem State.fetch_flush (boundary : s.registers.AtBoundary) : s.flush.fetch = s.fetch :=
  State.fetch_congr rfl
    (Registers.loaded_special (i := PCReg) boundary.slot (by decide) (by decide) (by decide) 0 0)

/-- The operands that the instruction reads, before and after the flush. -/
theorem State.execute_flush {instr : Instruction} {m : Memory}
    (boundary : s.registers.AtBoundary) (decoded : instr.Decoded)
    (unread : (s.registers LoadReg).toNat ≠ 0 → ¬ instr.Reads (s.registers LoadReg).toNat) :
    (execute instr (s.flush.values instr) m).map Effect.settle =
      (execute instr (s.values instr) m).map Effect.settle := by
  have kept : ∀ i : Fin 40, 32 ≤ i.val → i ≠ LoadReg → i ≠ LoadValueReg →
      s.flush.registers i = s.registers i :=
    fun i high notLoad notValue => Registers.loaded_special boundary.slot high notLoad notValue 0 0
  have general : ∀ n, n < 32 → s.flush.registers.get n =
      if n ≠ 0 ∧ n = (s.registers LoadReg).toNat then s.registers LoadValueReg
      else s.registers.get n :=
    fun n low => Registers.loaded_get boundary low
  refine execute_congr ?_ ?_ (kept HiReg (by decide) (by decide) (by decide))
    (kept LoReg (by decide) (by decide) (by decide))
    (kept NextPCReg (by decide) (by decide) (by decide)) ?_
  · intro reads
    simp only [State.values]
    rw [general _ decoded.rs, if_neg]
    rintro ⟨nonzero, pending⟩
    exact unread (by omega) (.inl ⟨reads, pending⟩)
  · intro reads
    simp only [State.values]
    rw [general _ decoded.rt, if_neg]
    rintro ⟨nonzero, pending⟩
    exact unread (by omega) (.inr ⟨reads, pending⟩)
  · -- `LWL` and `LWR` take the pending value out of the slot, or find it in place.
    by_cases zero : instr.rt = 0
    · exact .inl zero
    · refine .inr ?_
      have empty : s.flush.registers LoadReg = 0 := rfl
      simp only [State.values, empty, general _ decoded.rt]
      have none : (0 : Word).toNat = 0 := rfl
      rw [if_neg (by omega)]
      by_cases pending : instr.rt = (s.registers LoadReg).toNat
      · rw [if_pos ⟨zero, pending⟩, if_pos pending.symm]
      · rw [if_neg (by tauto), if_neg (by omega)]

theorem Effect.settle_load (e : Effect) : e.settle.load.1 = e.load.1 := by
  unfold Effect.settle
  split
  next zero => exact zero.symm
  next => rfl

theorem Effect.settle_memory (e : Effect) : e.settle.memory = e.memory := by
  unfold Effect.settle
  split <;> rfl

theorem Effect.settle_write (e : Effect) : e.settle.write = e.write := by
  unfold Effect.settle
  split <;> rfl

/-- An instruction that does not read or write the target of the pending load has
the same result after a flush. -/
theorem State.attempt_flush (boundary : s.registers.AtBoundary) (noRead : s.NoRead)
    (noWrite : s.NoWrite) : settled s.flush.attempt = settled s.attempt := by
  have flushed : s.flush.registers.AtBoundary := s.registers.loaded_atBoundary
  have sameFetch := State.fetch_flush boundary
  obtain ⟨which, raised⟩ | ⟨instr, mmu, fetched, decoded⟩ := s.fetch_cases
  · unfold State.attempt
    rw [sameFetch, raised, Exec.error_bind, Exec.error_bind]
  · unfold State.NoRead at noRead
    unfold State.NoWrite at noWrite
    rw [fetched] at noRead noWrite
    simp only at noRead noWrite
    have same := State.execute_flush (m := { s.memory with mmu }) boundary decoded noRead
    have sound := execute_sound (v := s.values instr) (m := { s.memory with mmu }) decoded
    have sound' := execute_sound (v := s.flush.values instr) (m := { s.memory with mmu }) decoded
    have targets : Targets instr.target
        (execute instr (s.values instr) { s.memory with mmu }) := execute_targets
    rw [State.attempt_fetched boundary.slot fetched decoded,
      State.attempt_fetched flushed.slot (sameFetch.trans fetched) decoded]
    cases executed : execute instr (s.values instr) { s.memory with mmu } with
    | error stop =>
      cases executed' : execute instr (s.flush.values instr) { s.memory with mmu } with
      | error stop' => rfl
      | ok e' =>
        rw [executed, executed'] at same
        cases same
    | ok e =>
      cases executed' : execute instr (s.flush.values instr) { s.memory with mmu } with
      | error stop' =>
        rw [executed, executed'] at same
        cases same
      | ok e' =>
        rw [executed] at sound targets
        rw [executed'] at sound'
        rw [executed, executed'] at same
        have settle : e'.settle = e.settle := Except.ok.inj same
        have load : e'.load.1 = e.load.1 := by
          rw [← e'.settle_load, settle, e.settle_load]
        have memory : e'.memory = e.memory := by
          rw [← e'.settle_memory, settle, e.settle_memory]
        have apart : (s.registers LoadReg).toNat ≠ 0 →
            e.settle.write.map Prod.fst ≠ some (s.registers LoadReg).toNat := by
          intro nonzero
          rw [e.settle_write, targets e rfl]
          exact noWrite nonzero
        have registers : (s.flush.registers.committed e').loaded 0 0 =
            (s.registers.committed e).loaded 0 0 := by
          rw [← Registers.loaded_committed_settle sound', settle,
            ← Registers.loaded_committed_settle sound]
          exact congrArg (·.loaded 0 0) (Registers.committed_loaded boundary apart)
        have target : s.flush.registers.committed e' LoadReg = s.registers.committed e LoadReg :=
          congrArg (BitVec.ofNat 32) load
        change some (s.flush.registers.committed e' LoadReg,
          State.mk ((s.flush.registers.committed e').loaded 0 0) e'.memory) =
            some (s.registers.committed e LoadReg,
              State.mk ((s.registers.committed e).loaded 0 0) e.memory)
        rw [registers, memory, target]

end Slot

section Reference

/-- The end of an instruction on a machine without a delay slot: a load writes its
register at once. -/
def Registers.referenceCommit (r : Registers) (e : Effect) : Exec Registers := do
  let r ← r.install e.write
  let r := Function.update (Function.update r HiReg e.hi) LoReg e.lo
  let i ← index e.load.1
  let r := Function.update r i e.load.2
  let r := Function.update r ZeroReg 0
  let r := Function.update r PrevPCReg (r PCReg)
  let r := Function.update r PCReg (r NextPCReg)
  .ok (Function.update r NextPCReg e.pcAfter)

/-- `LWL` and `LWR` merge into the register itself: nothing is ever pending. -/
def State.referenceOperands (s : State) (instr : Instruction) : Exec Operands := do
  let rs ← index instr.rs
  let rt ← index instr.rt
  let r := s.registers
  .ok {
    rs := r rs
    rt := r rt
    hi := r HiReg
    lo := r LoReg
    nextPC := r NextPCReg
    merged := r rt }

/-- One instruction of the reference machine. -/
def State.reference (s : State) : Attempt State := do
  let (instr, memory) ← s.fetch
  let v ← guarded (s.referenceOperands instr)
  let e ← execute instr v memory
  let registers ← guarded (s.registers.referenceCommit e)
  .ok { registers, memory := e.memory }

/-- A state in which nothing is pending. -/
structure Registers.Settled (r : Registers) : Prop where
  zero : r 0 = 0
  load : r LoadReg = 0
  value : r LoadValueReg = 0

theorem Registers.loaded_settled (r : Registers) : (r.loaded 0 0).Settled :=
  ⟨rfl, rfl, rfl⟩

variable {s s' : State} {r : Registers} {e : Effect}

theorem Registers.Settled.slot (h : r.Settled) : r.SlotInRange := by
  unfold Registers.SlotInRange
  rw [h.load]
  decide

theorem Registers.Settled.loaded (h : r.Settled) : r.loaded 0 0 = r := by
  have none : (0 : Word).toNat = 0 := rfl
  funext i
  unfold Registers.loaded
  by_cases zero : i = 0
  · rw [if_pos zero, zero, h.zero]
  by_cases isLoad : i = LoadReg
  · rw [if_neg zero, if_pos isLoad, isLoad, h.load]
  by_cases isValue : i = LoadValueReg
  · rw [if_neg zero, if_neg isLoad, if_pos isValue, isValue, h.value]
  rw [if_neg zero, if_neg isLoad, if_neg isValue, h.load, none,
    if_neg (Fin.val_ne_zero_iff.mpr zero)]

theorem State.referenceOperands_eq {instr : Instruction} (h : s.registers.Settled)
    (decoded : instr.Decoded) : s.referenceOperands instr = .ok (s.values instr) := by
  have rs := decoded.rs
  have rt := decoded.rt
  have none : (0 : Word).toNat = 0 := rfl
  unfold referenceOperands values
  rw [Registers.index_eq (by omega), Exec.ok_bind, Registers.index_eq (by omega), Exec.ok_bind,
    Registers.get_eq (by omega), Registers.get_eq (by omega), h.load, h.value, none]
  by_cases zero : instr.rt = 0
  · have first : (⟨instr.rt, by omega⟩ : Fin 40) = 0 := Fin.ext zero
    simp only [first, h.zero, ite_self]
  · rw [if_neg (fun h => zero h.symm)]

/-- On a state with nothing pending, a commit followed by a flush is a commit of
the reference machine. -/
theorem Registers.referenceCommit_eq (h : r.Settled) (inRange : e.InRange) :
    r.referenceCommit e = .ok ((r.committed e).loaded 0 0) := by
  have own : ∀ i : Fin 40, 32 ≤ i.val → r.written e.write i = r i :=
    fun i => Registers.written_special inRange.write
  have bound := inRange.load
  unfold Registers.referenceCommit
  rw [Registers.install_eq inRange.write, Exec.ok_bind]
  simp only
  rw [Registers.index_eq (by omega), Exec.ok_bind]
  -- The registers before the program counters advance.
  generalize hbase : Function.update (Function.update (Function.update (Function.update
    (r.written e.write) HiReg e.hi) LoReg e.lo) ⟨e.load.1, by omega⟩ e.load.2) 0 0 = base
  have base_apply : ∀ i, base i = if i = 0 then 0 else if i.val = e.load.1 then e.load.2
      else if i = LoReg then e.lo else if i = HiReg then e.hi else r.written e.write i := by
    intro i
    rw [← hbase]
    simp only [Function.update_apply, Fin.ext_iff]
  have kept : ∀ i : Fin 40, 34 ≤ i.val → base i = r i := by
    intro i high
    have lo : (LoReg : Fin 40).val = 33 := rfl
    have hi : (HiReg : Fin 40).val = 32 := rfl
    rw [base_apply, if_neg (by rintro rfl; simp at high), if_neg (by omega),
      if_neg (by rintro rfl; omega), if_neg (by rintro rfl; omega), own i (by omega)]
  have different : (NextPCReg : Fin 40) ≠ PrevPCReg := by decide
  refine congrArg Except.ok (funext fun i => ?_)
  rw [Registers.loaded_committed inRange]
  by_cases special : i = 0 ∨ i = LoadReg ∨ i = LoadValueReg
  · rw [if_pos special]
    rcases special with rfl | rfl | rfl
    · rw [Function.update_of_ne (by decide), Function.update_of_ne (by decide),
        Function.update_of_ne (by decide), base_apply, if_pos rfl]
    · rw [Function.update_of_ne (by decide), Function.update_of_ne (by decide),
        Function.update_of_ne (by decide), kept LoadReg (by decide), h.load]
    · rw [Function.update_of_ne (by decide), Function.update_of_ne (by decide),
        Function.update_of_ne (by decide), kept LoadValueReg (by decide), h.value]
  rw [if_neg special]
  obtain ⟨notZero, notLoad, notValue⟩ : i ≠ 0 ∧ i ≠ LoadReg ∧ i ≠ LoadValueReg := by tauto
  unfold Registers.committed
  by_cases isNext : i = NextPCReg
  · subst isNext
    have : (NextPCReg : Fin 40).val = 35 := rfl
    rw [Function.update_self, if_neg (by omega), if_neg (by decide), if_pos rfl]
  by_cases isPC : i = PCReg
  · subst isPC
    have : (PCReg : Fin 40).val = 34 := rfl
    rw [Function.update_of_ne isNext, Function.update_self, Function.update_of_ne different,
      kept NextPCReg (by decide), if_neg (by omega), if_pos rfl]
  by_cases isPrev : i = PrevPCReg
  · subst isPrev
    have : (PrevPCReg : Fin 40).val = 36 := rfl
    rw [Function.update_of_ne isNext, Function.update_of_ne isPC, Function.update_self,
      kept PCReg (by decide), if_neg (by omega), if_neg isPC, if_neg isNext, if_pos rfl]
  have none : (0 : Word).toNat = 0 := rfl
  have nonzero : i.val ≠ 0 := Fin.val_ne_zero_iff.mpr notZero
  rw [Function.update_of_ne isNext, Function.update_of_ne isPC, Function.update_of_ne isPrev,
    base_apply, if_neg notZero, if_neg isPC, if_neg isNext, if_neg isPrev, if_neg notZero,
    if_neg notLoad, if_neg notValue, h.load, none, if_neg nonzero]
  by_cases isHi : i = HiReg
  · subst isHi
    rw [if_neg (show HiReg ≠ LoReg by decide), if_pos rfl, if_pos rfl]
  · rw [if_neg isHi, if_neg isHi]

theorem State.reference_eq (h : s.registers.Settled) :
    s.reference = s.attempt.map State.flush := by
  obtain ⟨which, raised⟩ | ⟨instr, mmu, fetched, decoded⟩ := s.fetch_cases
  · unfold State.reference State.attempt
    rw [raised, Exec.error_bind, Exec.error_bind]
    rfl
  · have sound := execute_sound (v := s.values instr) (m := { s.memory with mmu }) decoded
    rw [State.attempt_fetched h.slot fetched decoded]
    unfold State.reference
    rw [fetched, Exec.ok_bind]
    simp only [State.referenceOperands_eq h decoded, guarded, Exec.ok_bind]
    cases executed : execute instr (s.values instr) { s.memory with mmu } with
    | error stop => rfl
    | ok e =>
      rw [executed] at sound
      rw [Exec.ok_bind, Registers.referenceCommit_eq h sound]
      rfl

/-- `n` instructions without an exception. -/
def State.run (step : State → Attempt State) : Nat → State → Option State
  | 0, s => some s
  | n + 1, s =>
    match step s with
    | .ok s' => run step n s'
    | .error _ => none

/-- The condition holds before each of `n` instructions. -/
def State.Along (ok : State → Prop) : Nat → State → Prop
  | 0, _ => True
  | n + 1, s => ok s ∧
    match s.attempt with
    | .ok s' => Along ok n s'
    | .error _ => True

theorem State.attempt_atBoundary (boundary : s.registers.AtBoundary) (done : s.attempt = .ok s') :
    s'.registers.AtBoundary := by
  obtain ⟨e, ends, inRange⟩ | ⟨which, badVAddr, memory, raised, -⟩ | fault :=
    State.attempt_cases boundary.slot
  · rw [ends] at done
    cases done
    exact Registers.committed_atBoundary inRange
  · rw [raised] at done
    cases done
  · rw [fault] at done
    cases done

/-- One instruction, seen by the reference machine. -/
theorem State.reference_flush (boundary : s.registers.AtBoundary) (noRead : s.NoRead)
    (noWrite : s.NoWrite) (done : s.attempt = .ok s') : s.flush.reference = .ok s'.flush := by
  have same := State.attempt_flush boundary noRead noWrite
  rw [State.reference_eq s.registers.loaded_settled]
  rw [done] at same
  cases flushed : s.flush.attempt with
  | error stop =>
    rw [flushed] at same
    cases same
  | ok t =>
    rw [flushed] at same
    have : t.flush = s'.flush := (Prod.mk.inj (Option.some.inj same)).2
    exact congrArg Except.ok this

/-- If no instruction writes the target of the load just before it, the machine
computes what it would compute with loads that write their register at once. -/
theorem delayed_loads_match_reference (n : Nat) (s s' : State)
    (boundary : s.registers.AtBoundary) (noRead : s.Along State.NoRead n)
    (noWrite : s.Along State.NoWrite n) (ran : s.run State.attempt n = some s') :
    s.flush.run State.reference n = some s'.flush := by
  induction n generalizing s with
  | zero =>
    cases ran
    rfl
  | succ n ih =>
    obtain ⟨here, later⟩ := noRead
    obtain ⟨here', later'⟩ := noWrite
    cases done : s.attempt with
    | error stop =>
      simp only [State.run, done] at ran
      cases ran
    | ok t =>
      simp only [State.run, done] at ran
      rw [done] at later later'
      simp only [State.run, State.reference_flush boundary here here' done]
      exact ih t (State.attempt_atBoundary boundary done) later later' ran

/-- `LW r1, 16(r0)`, then `ADDIU r2, r0, 5` and `SW r1, 20(r0)`. -/
def storeAfterLoad : State where
  registers := initRegisters 1
  memory := programMemory [0x8c010010, 0x24020005, 0xac010014, 0, 7]

instance State.decidableAlong (ok : State → Prop) [DecidablePred ok] :
    ∀ n s, Decidable (State.Along ok n s)
  | 0, _ => isTrue trivial
  | n + 1, s =>
    match h : s.attempt with
    | .ok s' =>
      have := decidableAlong ok n s'
      decidable_of_iff (ok s ∧ State.Along ok n s') (by simp [State.Along, h])
    | .error _ => decidable_of_iff (ok s) (by simp [State.Along, h])

theorem delayed_loads_match_reference_store :
    ∃ s', storeAfterLoad.run State.attempt 3 = some s' ∧ s'.memory.mainMemory 20 = 7 ∧
      storeAfterLoad.flush.run State.reference 3 = some s'.flush := by
  have stored : (storeAfterLoad.run State.attempt 3).map (fun s => s.memory.mainMemory 20) =
      some 7 := by
    decide +kernel
  obtain ⟨s', ran, value⟩ := Option.map_eq_some_iff.mp stored
  exact ⟨s', ran, value, delayed_loads_match_reference 3 storeAfterLoad s'
    (initRegisters_atBoundary 1) (by decide +kernel) (by decide +kernel) ran⟩

/-- `LW r1, 8(r0)` followed by `ADDIU r1, r0, 5`: the value loaded comes last. -/
def overwritingLoad : State where
  registers := initRegisters 1
  memory := programMemory [0x8c010008, 0x24010005, 7]

theorem later_write_lost :
    ¬ ∀ (n : Nat) (s s' : State), s.registers.AtBoundary → s.Along State.NoRead n →
      s.run State.attempt n = some s' → s.flush.run State.reference n = some s'.flush := by
  intro claim
  have loaded : (overwritingLoad.run State.attempt 2).map (fun s => s.flush.registers 1) =
      some 7 := by
    decide +kernel
  have reference : (overwritingLoad.flush.run State.reference 2).map (fun s => s.registers 1) =
      some 5 := by
    decide +kernel
  obtain ⟨s', ran, value⟩ := Option.map_eq_some_iff.mp loaded
  have same := claim 2 overwritingLoad s' (initRegisters_atBoundary 1) (by decide +kernel) ran
  rw [same, Option.map_some, value] at reference
  exact absurd (Option.some.inj reference) (by decide)

end Reference

section Disturbance

/-- What may happen between two instructions of a thread. -/
inductive Disturbance where
  /-- `CheckIfDue` fires handlers. -/
  | interrupt
  /-- The thread is switched out; `others` is what the other threads leave in the
  machine registers. -/
  | switch (others : Registers)

/-- `Thread::SaveUserState`: the saved registers. -/
def saveUserState (machine : Registers) : Registers := fun i => machine i

/-- `Thread::RestoreUserState`. -/
def restoreUserState (machine userRegisters : Registers) : Registers :=
  (List.finRange 40).foldl (fun r i => Function.update r i (userRegisters i)) machine

namespace State

variable {s s' t t' : State}

def disturb : Disturbance → State → Option State
  | .interrupt, s =>
    match s.registers.delayedLoad 0 0 with
    | .ok registers => some { s with registers }
    | .error _ => none
  | .switch others, s =>
    let userRegisters := saveUserState s.registers
    some { s with registers := restoreUserState others userRegisters }

def disturbAll : List Disturbance → State → Option State
  | [], s => some s
  | d :: ds, s => (disturb d s).bind (disturbAll ds)

/-- A run with the disturbances before each of its instructions. -/
def disturbedRun : List (List Disturbance) → State → Option State
  | [], s => some s
  | ds :: rest, s =>
    match disturbAll ds s with
    | none => none
    | some s =>
      match s.attempt with
      | .ok s' => disturbedRun rest s'
      | .error _ => none

theorem restore_fold (l : List (Fin 40)) (userRegisters machine : Registers) (i : Fin 40) :
    l.foldl (fun r i => Function.update r i (userRegisters i)) machine i =
      if i ∈ l then userRegisters i else machine i := by
  induction l generalizing machine with
  | nil => simp
  | cons j l ih =>
    rw [List.foldl_cons, ih]
    by_cases here : i ∈ l
    · rw [if_pos here, if_pos (List.mem_cons_of_mem _ here)]
    · rw [if_neg here]
      by_cases first : i = j
      · subst first
        rw [Function.update_self, if_pos List.mem_cons_self]
      · rw [Function.update_of_ne first, if_neg (by simp [first, here])]

theorem restoreUserState_eq (machine userRegisters : Registers) :
    restoreUserState machine userRegisters = userRegisters := by
  funext i
  unfold restoreUserState
  rw [restore_fold, if_pos (List.mem_finRange i)]

/-- Two states of one run that differ only in where its last load stands. -/
structure Twin (s t : State) : Prop where
  boundary : s.registers.AtBoundary
  boundary' : t.registers.AtBoundary
  flush : t.flush = s.flush
  slot : t.registers LoadReg = s.registers LoadReg ∨ t.registers LoadReg = 0

theorem Twin.refl (boundary : s.registers.AtBoundary) : Twin s s :=
  ⟨boundary, boundary, rfl, .inl rfl⟩

theorem flush_flush (s : State) : s.flush.flush = s.flush := by
  change State.mk ((s.registers.loaded 0 0).loaded 0 0) s.memory = s.flush
  rw [s.registers.loaded_settled.loaded]
  rfl

theorem Twin.disturb {d : Disturbance} (twin : Twin s t) :
    ∃ t', State.disturb d t = some t' ∧ Twin s t' := by
  cases d with
  | interrupt =>
    refine ⟨t.flush, ?_, twin.boundary, t.registers.loaded_atBoundary, ?_, .inr rfl⟩
    · simp only [State.disturb, Registers.delayedLoad_eq twin.boundary'.slot]
      rfl
    · rw [flush_flush, twin.flush]
  | switch others =>
    refine ⟨t, ?_, twin⟩
    simp only [State.disturb, restoreUserState_eq]
    rfl

theorem Twin.disturbAll (ds : List Disturbance) (twin : Twin s t) :
    ∃ t', State.disturbAll ds t = some t' ∧ Twin s t' := by
  induction ds generalizing t with
  | nil => exact ⟨t, rfl, twin⟩
  | cons d ds ih =>
    obtain ⟨t₁, first, twin₁⟩ := twin.disturb (d := d)
    obtain ⟨t₂, rest, twin₂⟩ := ih twin₁
    exact ⟨t₂, by simp only [State.disturbAll, first, Option.bind_some, rest], twin₂⟩

/-- A condition on the slot carries over to the twin, whose slot is the same or
empty. -/
theorem Twin.conditions (twin : Twin s t) (noRead : s.NoRead) (noWrite : s.NoWrite) :
    t.NoRead ∧ t.NoWrite := by
  have sameFetch : t.fetch = s.fetch := by
    rw [← fetch_flush twin.boundary', twin.flush, fetch_flush twin.boundary]
  unfold NoRead at *
  unfold NoWrite at *
  rw [sameFetch]
  rcases twin.slot with same | empty
  · rw [same]
    exact ⟨noRead, noWrite⟩
  · rw [empty]
    have none : (0 : Word).toNat = 0 := rfl
    constructor
    · split
      · exact fun nonzero => absurd none nonzero
      · trivial
    · split
      · exact fun nonzero => absurd none nonzero
      · trivial

/-- The twins stay twins through an instruction. -/
theorem Twin.settled (twin : Twin s t) (noRead : s.NoRead) (noWrite : s.NoWrite) :
    settled t.attempt = settled s.attempt := by
  obtain ⟨noRead', noWrite'⟩ := twin.conditions noRead noWrite
  rw [← attempt_flush twin.boundary noRead noWrite, ← attempt_flush twin.boundary' noRead' noWrite',
    twin.flush]

/-- A disturbed run follows the undisturbed one. -/
theorem Twin.disturbedRun {ds : List (List Disturbance)} (twin : Twin s t)
    (noRead : s.Along NoRead ds.length) (noWrite : s.Along NoWrite ds.length) :
    (State.disturbedRun ds t).map State.flush = (s.run attempt ds.length).map State.flush := by
  induction ds generalizing s t with
  | nil => exact congrArg some twin.flush
  | cons d ds ih =>
    obtain ⟨here, later⟩ := noRead
    obtain ⟨here', later'⟩ := noWrite
    obtain ⟨t₁, disturbed, twin₁⟩ := twin.disturbAll d
    have same := twin₁.settled here here'
    simp only [State.disturbedRun, disturbed, List.length_cons, State.run]
    cases done : s.attempt with
    | error stop =>
      cases done' : t₁.attempt with
      | error stop' => rfl
      | ok t' =>
        rw [done, done'] at same
        cases same
    | ok s' =>
      cases done' : t₁.attempt with
      | error stop' =>
        rw [done, done'] at same
        cases same
      | ok t' =>
        rw [done, done'] at same
        rw [done] at later later'
        obtain ⟨slot, flushed⟩ := Prod.mk.inj (Option.some.inj same)
        have twin' : Twin s' t' := ⟨attempt_atBoundary twin.boundary done,
          attempt_atBoundary twin₁.boundary' done', flushed, .inl slot⟩
        exact ih twin' later later'

end State

/-- Any two ways of taking interrupts and switches between the instructions of a
program lead to the same registers and memory after the same number of
instructions, or to an exception at the same instruction. -/
theorem interrupts_invisible (s : State) (boundary : s.registers.AtBoundary) (n : Nat)
    (a b : List (List Disturbance)) (first : a.length = n) (second : b.length = n)
    (noRead : s.Along State.NoRead n) (noWrite : s.Along State.NoWrite n) :
    (s.disturbedRun a).map State.flush = (s.disturbedRun b).map State.flush := by
  have twin := State.Twin.refl boundary
  subst first
  have one := twin.disturbedRun noRead noWrite
  rw [← second] at noRead noWrite
  have two := twin.disturbedRun noRead noWrite
  rw [one, two, second]

/-- The interrupt falls between the load and the store, in one run only. -/
theorem interrupts_invisible_store :
    storeAfterLoad.disturbedRun [[], [.interrupt, .switch fun _ => 9], []] ≠ none ∧
      (storeAfterLoad.disturbedRun [[], [.interrupt, .switch fun _ => 9], []]).map State.flush =
        (storeAfterLoad.disturbedRun [[.switch fun _ => 3], [], []]).map State.flush := by
  have runs : (storeAfterLoad.disturbedRun
      [[], [.interrupt, .switch fun _ => 9], []]).isSome := by
    decide +kernel
  exact ⟨Option.isSome_iff_ne_none.mp runs, interrupts_invisible storeAfterLoad
    (initRegisters_atBoundary 1) 3 _ _ rfl rfl (by decide +kernel) (by decide +kernel)⟩

end Disturbance

end NachOS.Mips
