import NachOS.Userprog.Names

/-!
# The bytes that Read and Write move (userprog/ksyscall.h:28-71, 286-370)

Both calls go through a buffer in the kernel, and both loops that copy between it and
user memory are made for strings: they stop at a NUL. The numbers that the calls
return count what the host has read or written. So `Read` reports bytes that never
reach the user program, unless they were there before (`read_exact_iff`), and `Write`
writes zeros for the bytes behind the first NUL (`write_exact_iff`).
-/
namespace NachOS.Stub
open NachOS.Lib NachOS.Filesys

namespace UserMemory

variable {m m' : UserMemory} {virtAddr : Int} {buffer : Buf} {i n : Nat}

/-- The loop of `System2User` reaches a byte only if no NUL comes before it. -/
theorem copyOut_frame (run : m.copyOut virtAddr buffer i n = .ok m') {addr : Int}
    (other : ∀ j, i ≤ j → j < i + n → (∀ l, i ≤ l → l < j → buffer l ≠ 0) → addr ≠ virtAddr + j) :
    m'.byte addr = m.byte addr := by
  induction n generalizing m i with
  | zero =>
    cases run
    rfl
  | succ n ih =>
    obtain ⟨m₁, stored, rest⟩ := Exec.bind_eq_ok.mp run
    obtain ⟨_, _, stored⟩ := Exec.bind_eq_ok.mp stored
    cases stored
    have here : addr ≠ virtAddr + i := other i le_rfl (by omega) fun l low high => by omega
    have first : Function.update m.byte (virtAddr + i) (buffer i) addr = m.byte addr :=
      Function.update_of_ne here _ _
    split at rest
    next =>
      cases rest
      exact first
    next nonzero =>
      refine (ih rest fun j low high text => ?_).trans first
      refine other j (by omega) (by omega) fun l low' high' => ?_
      by_cases same : l = i
      · rw [same]
        exact nonzero
      · exact text l (by omega) high'

/-- The bytes up to the first NUL, and the NUL itself, arrive. -/
theorem copyOut_copied (run : m.copyOut virtAddr buffer i n = .ok m') {j : Nat} (low : i ≤ j)
    (high : j < i + n) (text : ∀ l, i ≤ l → l < j → buffer l ≠ 0) :
    m'.byte (virtAddr + j) = buffer j := by
  induction n generalizing m i with
  | zero => omega
  | succ n ih =>
    obtain ⟨m₁, stored, rest⟩ := Exec.bind_eq_ok.mp run
    obtain ⟨_, _, stored⟩ := Exec.bind_eq_ok.mp stored
    cases stored
    by_cases here : j = i
    · subst here
      have first : Function.update m.byte (virtAddr + j) (buffer j) (virtAddr + j) = buffer j :=
        Function.update_self _ _ _
      split at rest
      next =>
        cases rest
        exact first
      next => exact (copyOut_frame rest fun l low _ _ => by omega).trans first
    · have nonzero : buffer i ≠ 0 := text i le_rfl (by omega)
      rw [if_neg nonzero] at rest
      exact ih rest (by omega) (by omega) fun l low' high' => text l (by omega) high'

/-- The user sees the whole buffer exactly if the bytes behind a NUL were there before. -/
theorem copyOut_exact_iff (run : m.copyOut virtAddr buffer 0 n = .ok m') :
    (∀ j < n, m'.byte (virtAddr + j) = buffer j) ↔
      ∀ l j, l < j → j < n → buffer l = 0 → m.byte (virtAddr + j) = buffer j := by
  constructor
  · intro exact l j less within zero
    have skipped : m'.byte (virtAddr + j) = m.byte (virtAddr + j) := by
      refine copyOut_frame run fun j' _ _ text same => ?_
      obtain rfl : j = j' := by omega
      exact text l (Nat.zero_le l) less zero
    rw [← skipped]
    exact exact j within
  · intro present j within
    by_cases text : ∀ l < j, buffer l ≠ 0
    · exact copyOut_copied run (Nat.zero_le j) (by omega) fun l _ less => text l less
    · push Not at text
      obtain ⟨l, less, zero⟩ := text
      rw [← present l j less within zero]
      refine copyOut_frame run fun j' _ _ text same => ?_
      obtain rfl : j = j' := by omega
      exact text l (Nat.zero_le l) less zero

theorem stringAt_succ (m : UserMemory) (virtAddr : Int) (n : Nat) :
    m.stringAt virtAddr (n + 1) =
      if m.byte virtAddr = 0 then [] else m.byte virtAddr :: m.stringAt (virtAddr + 1) n := by
  simp only [stringAt, bytesAt]
  split
  next zero => rw [List.takeWhile_cons_of_neg (by simpa using zero)]
  next nonzero => rw [List.takeWhile_cons_of_pos (by simpa using nonzero)]

/-- The kernel buffer up to the first NUL is the user's. -/
theorem stringAt_before {j : Nat} (within : j < n)
    (text : ∀ l : Nat, l < j → m.byte (virtAddr + l) ≠ 0) :
    bufferOf (m.stringAt virtAddr n) j = m.byte (virtAddr + j) := by
  induction n generalizing virtAddr j with
  | zero => omega
  | succ n ih =>
    rw [stringAt_succ]
    cases j with
    | zero =>
      rw [Nat.cast_zero, add_zero]
      split
      next zero => exact zero.symm
      next => rfl
    | succ j =>
      have first : m.byte virtAddr ≠ 0 := by simpa using text 0 (by omega)
      have step : ∀ l : Nat, virtAddr + 1 + l = virtAddr + (l + 1 : Nat) := fun l => by omega
      rw [if_neg first, ← step]
      exact ih (by omega) fun l less => by
        rw [step]
        exact text (l + 1) (by omega)

/-- Behind the first NUL it is filled with zeros. -/
theorem stringAt_after {l j : Nat} (less : l < j) (zero : m.byte (virtAddr + l) = 0) :
    bufferOf (m.stringAt virtAddr n) j = 0 := by
  induction n generalizing virtAddr l j with
  | zero => rfl
  | succ n ih =>
    rw [stringAt_succ]
    split
    next => rfl
    next nonzero =>
      cases l with
      | zero => exact absurd (by simpa using zero) nonzero
      | succ l =>
        obtain ⟨j, rfl⟩ := Nat.exists_eq_add_of_lt less
        have step : virtAddr + 1 + l = virtAddr + (l + 1 : Nat) := by omega
        exact ih (show l < l + 1 + j by omega) (by rw [step]; exact zero)

end UserMemory

namespace Kernel

/-- The place where the next `Read` or `Write` of an id starts: the offset of the
descriptor, which is what `GetCurrentPos` asks for. -/
def position (k : Kernel) (id : Int) : Option Nat := do
  let a ← k.openf id.toNat
  let f ← k.objects a
  let d ← k.host.fds f.file
  some d.offset

/-- The id leads to a file that is open as its type says. -/
structure OpenAt (k : Kernel) (id : CInt) (a : Nat) (f : OpenFile) (d : Descriptor) : Prop where
  range : 2 ≤ id.toInt ∧ id.toInt < MAX_FILE_OPEN
  pointer : k.openf id.toInt.toNat = some a
  object : k.objects a = some f
  ready : Ready k.host f d

variable {k k' : Kernel} {id virtAddr size : CInt} {a : Nat} {f : OpenFile} {d : Descriptor}

theorem OpenAt.slot (isOpen : k.OpenAt id a f d) : k.slot id.toInt = .ok (some a) := by
  have range := isOpen.range
  have inside : 0 ≤ id.toInt ∧ id.toInt < MAX_FILE_OPEN := by omega
  simp only [Kernel.slot, check_true inside, Exec.ok_bind, isOpen.pointer]

/-- The position after a call that changes the object and the host. -/
theorem position_eq (pointer : k.openf id.toInt.toNat = some a) (object : k.objects a = some f)
    (isOpen : k.host.fds f.file = some d) : k.position id.toInt = some d.offset := by
  simp only [position, pointer, object, isOpen, Option.bind_eq_bind, Option.bind_some]

/-- `Read` delivers the bytes of the file from the old position on, as many as there
are and fit: it puts them into user memory, touches nothing else there, returns their
number (-2 for none), and advances by as much. -/
def ReadsExactly (k : Kernel) (id virtAddr size : CInt) (d : Descriptor) (typed : List Byte) :
    Prop :=
  ∃ v k', k.trap (.read virtAddr size id typed) = .ok (v, k') ∧
    let bytes := (k.host.contents d.inode).drop d.offset
    let n := min size.toInt.toNat bytes.length
    k'.r2 = (if n = 0 then -2 else (n : Int)) ∧
    (∀ j < n, k'.memory.byte (virtAddr.toInt + j) = bytes.getD j 0) ∧
    (∀ addr, ¬ (virtAddr.toInt ≤ addr ∧ addr < virtAddr.toInt + n) →
      k'.memory.byte addr = k.memory.byte addr) ∧
    k'.position id.toInt = some (d.offset + n)

/-- `SysRead` on an open file. -/
theorem trap_read_file (virtAddr : CInt) (isOpen : k.OpenAt id a f d)
    (file : f.type = 0 ∨ f.type = 1) (positive : 0 < size.toInt) (typed : List Byte) :
    k.trap (.read virtAddr size id typed) =
      let data := k.host.available d size.toInt.toNat
      let f' : OpenFile := { f with currentOffset := d.offset + data.length }
      let host := k.host.moveTo f.file d (d.offset + data.length)
      if 0 < data.length then do
        let memory ← k.memory.system2User virtAddr.toInt data.length (bufferOf data)
        .ok (some (data.length : Int), { k.setObject a f' with host, memory, r2 := data.length })
      else .ok (some (-2), { k.setObject a f' with host, r2 := -2 }) := by
  obtain ⟨n, hn⟩ := Int.eq_ofNat_of_zero_le positive.le
  have range := isOpen.range
  have accepted : ¬ (id.toInt < 2 ∨ id.toInt > MAX_FILE_OPEN) := by omega
  have slot : Kernel.slot { k with r2 := 7 } id.toInt = .ok (some a) := isOpen.slot
  have read := readObject_file (k := { k with r2 := 7 }) (n := n) virtAddr.toInt typed
    isOpen.object isOpen.ready (by omega)
  rw [trap_read typed positive.le, hn, Int.toNat_natCast]
  simp only [sysRead, if_neg accepted, slot, Exec.ok_bind, read]
  split
  next =>
    cases k.memory.system2User virtAddr.toInt (k.host.available d n).length
      (bufferOf (k.host.available d n)) <;> rfl
  next => rfl

/-- What a read of `n` bytes delivers. -/
theorem available_eq (h : Host) (d : Descriptor) (n : Nat) :
    let bytes := (h.contents d.inode).drop d.offset
    (h.available d n).length = min n bytes.length ∧
      ∀ j < min n bytes.length, bufferOf (h.available d n) j = bytes.getD j 0 := by
  refine ⟨List.length_take, fun j within => ?_⟩
  unfold bufferOf Host.available
  rw [List.getD_eq_getElem?_getD, List.getD_eq_getElem?_getD, List.getElem?_take_of_lt (by omega)]

/-- The position after a transfer of `n` bytes, whatever else it changes. -/
theorem position_moved (isOpen : k.OpenAt id a f d) (n : Nat) {f' : OpenFile} {host : Host}
    {memory : UserMemory} {r2 : Int} (same : f'.file = f.file)
    (there : host.fds f.file = some { d with offset := d.offset + n }) :
    Kernel.position { k.setObject a f' with host, memory, r2 } id.toInt = some (d.offset + n) := by
  have object : ({ k.setObject a f' with host, memory, r2 } : Kernel).objects a = some f' :=
    Function.update_self _ _ _
  exact position_eq (k := { k.setObject a f' with host, memory, r2 }) isOpen.pointer object
    (same ▸ there)

end Kernel

/-- `Read` delivers the bytes of the file exactly if those behind a NUL were in user
memory already. -/
theorem read_exact_iff {k : Kernel} {id virtAddr size : CInt} {a : Nat} {f : OpenFile}
    {d : Descriptor} (isOpen : k.OpenAt id a f d) (file : f.type = 0 ∨ f.type = 1)
    (positive : 0 < size.toInt) (typed : List Byte)
    (mapped : ∀ j : Nat, (j : Int) < size.toInt →
      k.memory.writable (virtAddr.toInt + j) = true) :
    k.ReadsExactly id virtAddr size d typed ↔
      let bytes := (k.host.contents d.inode).drop d.offset
      ∀ i j, i < j → j < min size.toInt.toNat bytes.length → bytes.getD i 0 = 0 →
        k.memory.byte (virtAddr.toInt + j) = bytes.getD j 0 := by
  have call := Kernel.trap_read_file virtAddr isOpen file positive typed
  obtain ⟨count, buffered⟩ := Kernel.available_eq k.host d size.toInt.toNat
  have moved : (k.host.moveTo f.file d
      (d.offset + (k.host.available d size.toInt.toNat).length)).fds f.file =
      some { d with offset := d.offset + (k.host.available d size.toInt.toNat).length } :=
    Host.moveTo_self _
  unfold Kernel.ReadsExactly
  generalize k.host.available d size.toInt.toNat = data at *
  generalize (k.host.contents d.inode).drop d.offset = bytes at *
  dsimp only at call ⊢
  rw [← count] at buffered ⊢
  by_cases some_left : 0 < data.length
  · have inside : ∀ j < 0 + data.length, k.memory.writable (virtAddr.toInt + j) = true :=
      fun j within => mapped j (by omega)
    obtain ⟨memory, copied⟩ := UserMemory.copyOut_mapped (bufferOf data) 0 data.length inside
    have copied' : k.memory.system2User virtAddr.toInt data.length (bufferOf data) = .ok memory :=
      copied
    rw [if_pos some_left, copied', Exec.ok_bind] at call
    have exact_iff := UserMemory.copyOut_exact_iff copied
    constructor
    · rintro ⟨v, k', run, _, delivered, _, _⟩ i j less within zero
      rw [call] at run
      cases run
      rw [← buffered j within]
      refine exact_iff.mp (fun j within => ?_) i j less within ?_
      · rw [buffered j within]
        exact delivered j within
      · rw [buffered i (by omega)]
        exact zero
    · intro present
      refine ⟨_, _, call, ?_, fun j within => ?_, fun addr outside => ?_,
        Kernel.position_moved isOpen data.length rfl moved⟩
      · rw [if_neg (by omega)]
      · rw [← buffered j within]
        refine exact_iff.mpr (fun i j less within zero => ?_) j within
        rw [buffered j within]
        rw [buffered i (by omega)] at zero
        exact present i j less within zero
      · exact UserMemory.copyOut_frame copied fun j _ _ _ => by omega
  · rw [if_neg some_left] at call
    have none_left : data.length = 0 := by omega
    refine iff_of_true ⟨_, _, call, ?_, fun j within => by omega, fun addr _ => rfl,
      Kernel.position_moved isOpen data.length rfl moved⟩ fun i j _ within => by omega
    rw [if_pos none_left]

/-- A kernel with one file, open under the id 2 with a given type. -/
def Kernel.opened (bytes : List Byte) (type : Int) : Kernel :=
  { Kernel.withFile shortName bytes with
    host := { (Kernel.withFile shortName bytes).host with
      fds := Function.update (fun _ => none) 3 (some ⟨0, 0, true, decide (type = 0)⟩) }
    openf := Function.update (fun _ => none) 2 (some 0)
    objects := Function.update (fun _ => none) 0 (some ⟨3, 0, type⟩)
    nextObject := 1 }

theorem Kernel.opened_openAt (bytes : List Byte) (type : Int) (small : bytes.length ≤ OFF_MAX) :
    (Kernel.opened bytes type).OpenAt 2 0 ⟨3, 0, type⟩ ⟨0, 0, true, decide (type = 0)⟩ where
  range := by decide
  pointer := rfl
  object := rfl
  ready := ⟨rfl, rfl, fun readWrite => decide_eq_true readWrite, Nat.zero_le _, small⟩

theorem read_exact_iff_text :
    (Kernel.opened [72, 105] 1).ReadsExactly 2 100 8 ⟨0, 0, true, false⟩ [] := by
  apply (read_exact_iff (Kernel.opened_openAt [72, 105] 1 (by decide)) (.inr rfl) (by decide) []
    fun _ _ => rfl).mpr
  intro bytes i j less within zero
  have two : j < 2 := lt_of_lt_of_le within (Nat.min_le_right _ _)
  obtain rfl : i = 0 := by omega
  exact absurd zero (by decide)

/-- A file with a NUL in it: the byte behind it does not arrive. -/
theorem read_stops_at_nul : ¬ ∀ (k : Kernel) (id virtAddr size : CInt) (a : Nat) (f : OpenFile)
    (d : Descriptor) (typed : List Byte), k.OpenAt id a f d → f.type = 0 ∨ f.type = 1 →
    0 < size.toInt →
    (∀ j : Nat, (j : Int) < size.toInt → k.memory.writable (virtAddr.toInt + j) = true) →
      k.ReadsExactly id virtAddr size d typed := by
  intro exact
  obtain ⟨v, k', run, _, delivered, _⟩ := exact (Kernel.opened [0, 5] 1) 2 100 2 0 ⟨3, 0, 1⟩ _ []
    (Kernel.opened_openAt [0, 5] 1 (by decide)) (.inr rfl) (by decide) fun _ _ => rfl
  have left : ((Kernel.opened [0, 5] 1).trap (.read 100 2 2 [])).toOption.map
      (fun r => r.2.memory.byte 101) = some 0 := by decide +kernel
  rw [run] at left
  have second : k'.memory.byte 101 = 5 := delivered 1 (by decide)
  have unread : k'.memory.byte 101 = 0 := Option.some.inj left
  rw [second] at unread
  exact absurd unread (by decide)

namespace Kernel

variable {k k' : Kernel} {id virtAddr size : CInt} {a : Nat} {f : OpenFile} {d : Descriptor}

/-- `Write` puts the bytes of user memory into the file from the old position on,
leaves the rest of the file and all other files alone (a gap behind the end reads as
zeros), returns their number and advances by as much. -/
def WritesExactly (k : Kernel) (id virtAddr size : CInt) (d : Descriptor) : Prop :=
  ∃ v k', k.trap (.write virtAddr size id) = .ok (v, k') ∧
    let n := size.toInt.toNat
    let before := k.host.contents d.inode
    let after := k'.host.contents d.inode
    (∀ j < n, after.getD (d.offset + j) 0 = k.memory.byte (virtAddr.toInt + j)) ∧
    (∀ i, i < d.offset ∨ d.offset + n ≤ i → after.getD i 0 = before.getD i 0) ∧
    after.length = (if n = 0 then before.length else max before.length (d.offset + n)) ∧
    (∀ other ≠ d.inode, k'.host.contents other = k.host.contents other) ∧
    k'.position id.toInt = some (d.offset + n) ∧ k'.r2 = n

/-- `SysWrite` on a file open for reading and writing. -/
theorem trap_write_file (isOpen : k.OpenAt id a f d) (readWrite : f.type = 0)
    {n : Nat} (count : size.toInt = n) {text : List Byte}
    (buffer : k.memory.user2System virtAddr.toInt n = .ok text) :
    (d.offset + n ≤ OFF_MAX ∧ ∃ v, k.trap (.write virtAddr size id) = .ok (v, { k.setObject a
      { f with currentOffset := d.offset + n } with
        host := (k.host.write f.file (bufferOf text) n).2
        r2 := if 0 < n then (n : Int) else 8 })) ∨
    (OFF_MAX < d.offset + n ∧ k.trap (.write virtAddr size id) = .error .assertion) := by
  have range := isOpen.range
  have accepted : ¬ (id.toInt < 2 ∨ id.toInt > MAX_FILE_OPEN - 1) := by omega
  have slot : Kernel.slot { k with r2 := 8 } id.toInt = .ok (some a) := isOpen.slot
  have nonneg : 0 ≤ size.toInt := by omega
  rw [trap_write nonneg, count]
  simp only [sysWrite, if_neg accepted, slot, Exec.ok_bind]
  rcases writeObject_file (k := { k with r2 := 8 }) isOpen.object isOpen.ready readWrite buffer with
    ⟨room, run⟩ | ⟨full, aborts⟩
  · refine .inl ⟨room, if 0 < n then some (n : Int) else none, ?_⟩
    rw [run, Exec.ok_bind]
    by_cases positive : 0 < n
    · simp only [if_pos positive]
      rfl
    · simp only [if_neg positive]
      rfl
  · refine .inr ⟨full, ?_⟩
    rw [aborts]
    rfl

/-- The kernel buffer of `n + 1` bytes cannot be allocated. -/
theorem trap_write_refused (isOpen : k.OpenAt id a f d) (readWrite : f.type = 0) {n : Nat}
    (count : size.toInt = n) (refused : k.memory.user2System virtAddr.toInt n = .error .badAlloc) :
    k.trap (.write virtAddr size id) = .error .badAlloc := by
  have range := isOpen.range
  have accepted : ¬ (id.toInt < 2 ∨ id.toInt > MAX_FILE_OPEN - 1) := by omega
  have slot : Kernel.slot { k with r2 := 8 } id.toInt = .ok (some a) := isOpen.slot
  have object : Kernel.object { k with r2 := 8 } a = .ok f := object_eq_ok.mpr isOpen.object
  have writes : ¬ (f.type = 1 ∨ f.type = 2) := by omega
  have nonneg : 0 ≤ size.toInt := by omega
  rw [trap_write nonneg, count]
  simp only [sysWrite, if_neg accepted, slot, Exec.ok_bind, writeObject, object, if_neg writes,
    OpenFile.getCurrentPos, refused, Exec.error_bind]

theorem user2System_small {m : UserMemory} {addr : Int} {n : Nat} {text : List Byte}
    (range : (n : Int) ≤ OFF_MAX) (buffer : m.user2System addr n = .ok text) : n < OFF_MAX := by
  obtain ⟨_, fits, _⟩ := Exec.bind_eq_ok.mp buffer
  have fits := check_eq_ok.mp fits
  by_contra large
  obtain rfl : n = OFF_MAX := by omega
  exact absurd fits (by decide)

/-- The file after a write of `n` bytes from a buffer. -/
theorem write_file (ready : Ready k.host f d) (readWrite : f.type = 0) (buffer : Buf) {n : Nat}
    (room : d.offset + n ≤ OFF_MAX) :
    let before := k.host.contents d.inode
    let host := (k.host.write f.file buffer n).2
    (∀ j < n, (host.contents d.inode).getD (d.offset + j) 0 = buffer j) ∧
    (∀ i, i < d.offset ∨ d.offset + n ≤ i →
      (host.contents d.inode).getD i 0 = before.getD i 0) ∧
    (host.contents d.inode).length =
      (if n = 0 then before.length else max before.length (d.offset + n)) ∧
    ∀ other ≠ d.inode, host.contents other = k.host.contents other := by
  have contents := Host.write_contents ready.isOpen (ready.writable readWrite) buffer room
  have size : ((List.range n).map buffer).length = n := by
    rw [List.length_map, List.length_range]
  dsimp only
  rw [contents]
  refine ⟨fun j within => ?_, fun i outside => ?_, ?_, fun other apart => ?_⟩
  · rw [Function.update_self, if_neg (by omega), Host.overwrite_getD, size, if_pos (by omega),
      Nat.add_sub_cancel_left, List.getD_eq_getElem?_getD, List.getElem?_map,
      List.getElem?_range within]
    rfl
  · rw [Function.update_self]
    split
    next => rfl
    next => rw [Host.overwrite_getD, size, if_neg (by omega)]
  · rw [Function.update_self]
    split
    next => rfl
    next => rw [Host.overwrite_length, size]
  · exact Function.update_of_ne apart _ _

end Kernel

/-- `Write` writes the bytes of the user exactly if there are some, the file does not
outgrow what the host and the kernel can count, and behind a NUL there are only NULs. -/
theorem write_exact_iff {k : Kernel} {id virtAddr size : CInt} {a : Nat} {f : OpenFile}
    {d : Descriptor} (isOpen : k.OpenAt id a f d) (readWrite : f.type = 0)
    (nonneg : 0 ≤ size.toInt)
    (mapped : ∀ j : Nat, (j : Int) < size.toInt →
      k.memory.readable (virtAddr.toInt + j) = true) :
    k.WritesExactly id virtAddr size d ↔
      0 < size.toInt ∧ size.toInt < OFF_MAX ∧ d.offset + size.toInt ≤ OFF_MAX ∧
      ∀ i j : Nat, i < j → (j : Int) < size.toInt → k.memory.byte (virtAddr.toInt + i) = 0 →
        k.memory.byte (virtAddr.toInt + j) = 0 := by
  obtain ⟨n, count⟩ := Int.eq_ofNat_of_zero_le nonneg
  have range : (n : Int) ≤ OFF_MAX := by
    have := size.range.2
    have top : (OFF_MAX : Int) = 2147483647 := rfl
    omega
  have readable : ∀ j < n, k.memory.readable (virtAddr.toInt + (j : Nat)) = true :=
    fun j within => mapped j (by omega)
  have copied := Kernel.user2System_mapped readable
  unfold Kernel.WritesExactly
  simp only [count, Int.toNat_natCast]
  constructor
  · rintro ⟨v, k', run, written, _, _, _, _, result⟩
    rcases copied with ⟨text, buffer⟩ | ⟨_, refused⟩
    · have small := Kernel.user2System_small range buffer
      have text_eq := UserMemory.user2System_stringAt buffer
      rcases Kernel.trap_write_file isOpen readWrite count buffer with
        ⟨room, v', call⟩ | ⟨_, aborts⟩
      · rw [run] at call
        cases call
        have positive : 0 < n := by
          by_contra zero
          change (if 0 < n then (n : Int) else 8) = n at result
          rw [if_neg zero] at result
          omega
        refine ⟨by omega, by omega, by omega, fun i j less within zero => ?_⟩
        have inside : j < n := by omega
        rw [← written j inside,
          (Kernel.write_file isOpen.ready readWrite (bufferOf text) room).1 j inside, text_eq]
        exact UserMemory.stringAt_after less zero
      · rw [run] at aborts
        cases aborts
    · rw [Kernel.trap_write_refused isOpen readWrite count refused] at run
      cases run
  · rintro ⟨positive, small, room, zeros⟩
    rcases copied with ⟨text, buffer⟩ | ⟨large, _⟩
    · have text_eq := UserMemory.user2System_stringAt buffer
      rcases Kernel.trap_write_file isOpen readWrite count buffer with
        ⟨room, v, call⟩ | ⟨full, _⟩
      · obtain ⟨inside, outside, length, others⟩ :=
          Kernel.write_file isOpen.ready readWrite (bufferOf text) room
        have moved : ((k.host.write f.file (bufferOf text) n).2).fds f.file =
            some { d with offset := d.offset + n } := by
          rcases Host.write_cases isOpen.ready.isOpen (isOpen.ready.writable readWrite)
            (bufferOf text) n with ⟨_, _, moved⟩ | ⟨full, _⟩
          · exact moved
          · omega
        refine ⟨v, _, call, fun j within => ?_, outside, length, others,
          Kernel.position_moved isOpen n rfl moved, if_pos (by omega)⟩
        rw [inside j within, text_eq]
        by_cases plain : ∀ l < j, k.memory.byte (virtAddr.toInt + l) ≠ 0
        · exact UserMemory.stringAt_before within plain
        · push Not at plain
          obtain ⟨l, less, zero⟩ := plain
          rw [UserMemory.stringAt_after less zero, zeros l j less (by omega) zero]
      · omega
    · omega

theorem write_exact_iff_text :
    (Kernel.opened [1, 2] 0).WritesExactly 2 0 5 ⟨0, 0, true, true⟩ := by
  apply (write_exact_iff (Kernel.opened_openAt [1, 2] 0 (by decide)) rfl (by decide)
    fun _ _ => rfl).mpr
  refine ⟨by decide, by decide, by decide, fun i j less within zero => ?_⟩
  have five : (j : Int) < 5 := within
  have plain : ∀ i < 4, (Kernel.opened [1, 2] 0).memory.byte ((0 : CInt).toInt + (i : Nat)) ≠ 0 := by
    decide
  exact absurd zero (plain i (by omega))

/-- A byte behind a NUL: the file gets a zero. -/
theorem write_stops_at_nul : ¬ ∀ (k : Kernel) (id virtAddr size : CInt) (a : Nat) (f : OpenFile)
    (d : Descriptor), k.OpenAt id a f d → f.type = 0 → 0 ≤ size.toInt →
    (∀ j : Nat, (j : Int) < size.toInt → k.memory.readable (virtAddr.toInt + j) = true) →
      k.WritesExactly id virtAddr size d := by
  intro exact
  have isOpen := Kernel.opened_openAt [] 0 (by decide)
  obtain ⟨v, k', run, written, _⟩ := exact
    { Kernel.opened [] 0 with memory := (Kernel.holding [65, 0, 66]).memory } 2 0 3 0 ⟨3, 0, 0⟩ _
    ⟨isOpen.range, isOpen.pointer, isOpen.object, isOpen.ready⟩ rfl (by decide) fun _ _ => rfl
  have left : (Kernel.trap { Kernel.opened [] 0 with memory := (Kernel.holding [65, 0, 66]).memory }
      (.write 0 3 2)).toOption.map (fun r => (r.2.host.contents 0).getD 2 0) = some 0 := by
    decide +kernel
  rw [run] at left
  have third : (k'.host.contents 0).getD 2 0 = 66 := written 2 (by decide)
  have zero : (k'.host.contents 0).getD 2 0 = 0 := Option.some.inj left
  rw [third] at zero
  exact absurd zero (by decide)

end NachOS.Stub
