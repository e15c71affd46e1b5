import NachOS.Userprog.Invocation

/-!
# Programs that copy files (test/copy.c:22-55, test/concatenate.c:23-50)

Both programs ask for two names, open two files and move bytes from one to the other with
`Read(&c, 1, ..)` and `Write(&c, 1, ..)`. The variable `c` is not set where `Read` finds the
end of its file, and is written again. The locals whose address is not taken are values here;
`source`, `source2` (called `dest` in `copy.c`), `c` and the messages have addresses. Each
program ends with `Halt`; what is modelled is the system in which it is called.
-/
namespace NachOS.Userprog
open NachOS.Lib NachOS.Mips NachOS.Filesys

def MaxLength : Word := 32

/-- Where the compiler and the loader have put the variables and the messages. -/
structure Layout where
  source : Word
  source2 : Word
  c : Word
  /-- "-- Sao chep file----" and "-- Noi file----". -/
  greeting : Word
  /-- "- Nhap ten file nguong: ". -/
  askFirst : Word
  /-- "- Nhap ten file dich: ". -/
  askSecond : Word
  /-- "Copy thanh cong" and "Noi file thanh cong". -/
  success : Word
  /-- "Tao file dich khong thanh cong" and "Loi khi mo file nguon 2". -/
  secondFailed : Word
  /-- "Loi khi mo file" and "Loi khi mo file nguon 1". -/
  firstFailed : Word

namespace System

/-- A call whose result is not used. -/
def perform (s : System) (call : SystemCall) (arguments : List Word) : Call System := do
  let r ← s.invoke .unasked call arguments
  .ok r.2

/-- The first lines of both programs. -/
def askNames (s : System) (l : Layout) : Call System := do
  let s ← s.perform .printString [l.greeting]
  let s ← s.perform .printString [l.askFirst]
  let s ← s.perform .readString [l.source, MaxLength]
  let s ← s.perform .printString [l.askSecond]
  s.perform .readString [l.source2, MaxLength]

/-- The loop of both programs, with `n` rounds to go. -/
def transfer (c src dst : Word) : Nat → System → Call System
  | 0, s => .ok s
  | n + 1, s => do
    let s ← s.perform .read [c, 1, src]
    let s ← s.perform .write [c, 1, dst]
    transfer c src dst n s

/-- `copy.c` once both files are open. -/
def copyBytes (s : System) (l : Layout) (src dst : Word) : Call System := do
  let (fileSize, s) ← s.invoke .unasked .seek [-1, src]
  let s ← s.perform .seek [0, src]
  let s ← s.perform .seek [0, dst]
  let s ← transfer l.c src dst fileSize.toInt.toNat s
  let s ← s.perform .printString [l.success]
  s.perform .close [dst]

/-- `main` of `copy.c`, up to `Halt`. -/
def copy (s : System) (l : Layout) (answers : Nat → Answers) : Call System := do
  let s ← s.askNames l
  let (src, s) ← s.invoke (answers 0) .openFile [l.source, 1]
  if src ≠ -1 then
    let (dst, s) ← s.invoke (answers 1) .create [l.source2]
    let s ← s.perform .close [dst]
    let (dst, s) ← s.invoke (answers 2) .openFile [l.source2, 0]
    let s ← if dst ≠ -1 then s.copyBytes l src dst else s.perform .printString [l.secondFailed]
    s.perform .close [src]
  else s.perform .printString [l.firstFailed]

/-- `concatenate.c` once both files are open: the loop runs to the size of the first. -/
def appendBytes (s : System) (l : Layout) (src src2 : Word) : Call System := do
  let (fileSize, s) ← s.invoke .unasked .seek [-1, src]
  let s ← s.perform .seek [-1, src2]
  let s ← s.perform .seek [fileSize, src]
  let s ← s.perform .seek [0, src2]
  let s ← transfer l.c src2 src fileSize.toInt.toNat s
  let s ← s.perform .printString [l.success]
  s.perform .close [src2]

/-- `main` of `concatenate.c`, up to `Halt`. -/
def concatenate (s : System) (l : Layout) (answers : Nat → Answers) : Call System := do
  let s ← s.askNames l
  let (src, s) ← s.invoke (answers 0) .openFile [l.source, 0]
  let (src2, s) ← s.invoke (answers 1) .openFile [l.source2, 1]
  if src ≠ -1 then
    let s ← if src2 ≠ -1 then s.appendBytes l src src2 else .ok s
    let s ← s.perform .printString [l.secondFailed]
    s.perform .close [src]
  else s.perform .printString [l.firstFailed]

end System

namespace Layout

/-- The addresses of the variables. -/
def Owned (l : Layout) (x : Word) : Prop :=
  (∃ j < 32, x = l.source + BitVec.ofNat 32 j) ∨ (∃ j < 32, x = l.source2 + BitVec.ofNat 32 j) ∨
    x = l.c

/-- A message of the program, away from the variables. -/
def Message (l : Layout) (bytes : Word → Option Byte) (a : Word) : Prop :=
  ∃ text, text.length < 255 ∧ StringAt bytes a text ∧
    ∀ j ≤ text.length, ¬l.Owned (a + BitVec.ofNat 32 j)

/-- The program is in memory: its variables can be written and do not overlap, and its
messages are there. -/
structure Loaded (l : Layout) (v : View) : Prop where
  injective : v.mmu.Injective
  source : v.Writable l.source 32
  source2 : v.Writable l.source2 32
  c : v.Writable l.c 1
  buffers : ∀ i < 32, ∀ j < 32, l.source + BitVec.ofNat 32 i ≠ l.source2 + BitVec.ofNat 32 j
  outside : ∀ j < 32, l.c ≠ l.source + BitVec.ofNat 32 j ∧ l.c ≠ l.source2 + BitVec.ofNat 32 j
  messages : ∀ a ∈ [l.greeting, l.askFirst, l.askSecond, l.success, l.secondFailed,
    l.firstFailed], l.Message v.bytes a

variable {l : Layout} {v : View} {bytes : Word → Option Byte}

/-- Writing to the variables keeps the program loaded. -/
theorem Loaded.kept (loaded : l.Loaded v) {files : Stub.Kernel} {input : List Byte}
    (same : ∀ x, ¬l.Owned x → bytes x = v.bytes x) :
    l.Loaded { v with bytes, files, input } where
  injective := loaded.injective
  source := loaded.source
  source2 := loaded.source2
  c := loaded.c
  buffers := loaded.buffers
  outside := loaded.outside
  messages := by
    intro a member
    obtain ⟨text, short, ⟨nonzero, chars, last⟩, apart⟩ := loaded.messages a member
    refine ⟨text, short, ⟨nonzero, ?_, ?_⟩, apart⟩
    · intro j hj
      exact (same _ (apart j (Nat.le_of_lt hj))).trans (chars j hj)
    · exact (same _ (apart _ (Nat.le_refl _))).trans last

end Layout

namespace System

variable {s : System} {l : Layout} {call : SystemCall} {arguments : List Word} {v : View}

theorem Invokes.perform {result : Word} (invokes : s.Invokes .unasked call arguments result v) :
    ∃ s', s.perform call arguments = .ok s' ∧ s'.view = v := by
  obtain ⟨s', run, looks⟩ := invokes
  refine ⟨s', ?_, looks⟩
  simp only [System.perform, run, Exec.ok_bind]

theorem print_message (loaded : l.Loaded s.view) {a : Word}
    (member : a ∈ [l.greeting, l.askFirst, l.askSecond, l.success, l.secondFailed,
      l.firstFailed]) : ∃ s', s.perform .printString [a] = .ok s' ∧ s'.view = s.view := by
  obtain ⟨text, short, string, -⟩ := loaded.messages a member
  exact (invokes_printString string short).perform

/-- The names are typed, each with a newline behind it. -/
theorem askNames_spec (loaded : l.Loaded s.view) {name name2 later : List Byte}
    (typable : Typable name) (typable2 : Typable name2) (short : name.length < 32)
    (short2 : name2.length < 32)
    (typed : s.view.input = name ++ 10 :: (name2 ++ 10 :: later)) :
    ∃ s' bytes, s.askNames l = .ok s' ∧ s'.view = { s.view with bytes, input := later } ∧
      StringAt bytes l.source name ∧ StringAt bytes l.source2 name2 ∧
      ∀ x, ¬l.Owned x → bytes x = s.view.bytes x := by
  have size : MaxLength.toInt = 32 := rfl
  obtain ⟨s₁, run₁, view₁⟩ := print_message loaded (a := l.greeting) (by simp)
  obtain ⟨s₂, run₂, view₂⟩ := print_message (view₁ ▸ loaded) (a := l.askFirst) (by simp)
  rw [view₁] at view₂
  have loaded₂ : l.Loaded s₂.view := view₂ ▸ loaded
  obtain ⟨bytes, invokes, string, frame⟩ := invokes_readString loaded₂.injective
    (show s₂.view.Writable l.source MaxLength.toInt.toNat from loaded₂.source) typable
    (by rw [size]; omega) (view₂ ▸ typed)
  obtain ⟨s₃, run₃, view₃⟩ := invokes.perform
  have kept : ∀ x, ¬l.Owned x → bytes x = s₂.view.bytes x := by
    intro x free
    apply frame
    intro j hj same
    exact free (.inl ⟨j, hj, same⟩)
  have loaded₃ : l.Loaded s₃.view := view₃ ▸ loaded₂.kept kept
  obtain ⟨s₄, run₄, view₄⟩ := print_message loaded₃ (a := l.askSecond) (by simp)
  rw [view₃] at view₄
  have loaded₄ : l.Loaded s₄.view := view₄ ▸ loaded₂.kept kept
  obtain ⟨bytes', invokes', string', frame'⟩ := invokes_readString loaded₄.injective
    (show s₄.view.Writable l.source2 MaxLength.toInt.toNat from loaded₄.source2) typable2
    (by rw [size]; omega) (show s₄.view.input = name2 ++ 10 :: later by rw [view₄])
  obtain ⟨s₅, run₅, view₅⟩ := invokes'.perform
  rw [view₄] at frame' view₅
  refine ⟨s₅, bytes', ?_, ?_, ?_, string', ?_⟩
  · simp only [askNames, run₁, run₂, run₃, run₄, run₅, Exec.ok_bind]
  · rw [view₅, view₂]
  · obtain ⟨nonzero, chars, last⟩ := string
    have apart : ∀ j < 32, bytes' (l.source + BitVec.ofNat 32 j) =
        bytes (l.source + BitVec.ofNat 32 j) := by
      intro j hj
      exact frame' _ fun i hi => loaded.buffers j hj i hi
    refine ⟨nonzero, ?_, ?_⟩
    · intro j hj
      rw [apart j (by omega)]
      exact chars j hj
    · rw [apart _ short]
      exact last
  · intro x free
    have outside : bytes' x = bytes x := by
      apply frame'
      intro j hj same
      exact free (.inr (.inl ⟨j, hj, same⟩))
    rw [outside, kept x free, view₂]

end System

section Loop

/-- The bytes that `n` rounds of the loop write: those of the file from `offset` on and, once
there are no more, the last value of `c` again and again. -/
def moved (bytes : List Byte) : Nat → Byte → Nat → List Byte
  | _, _, 0 => []
  | offset, ch, n + 1 =>
    let next := bytes.getD offset ch
    next :: moved bytes (if offset < bytes.length then offset + 1 else offset) next n

theorem moved_length (bytes : List Byte) (offset : Nat) (ch : Byte) (n : Nat) :
    (moved bytes offset ch n).length = n := by
  induction n generalizing offset ch with
  | zero => rfl
  | succ n ih => rw [moved, List.length_cons, ih]

theorem moved_inside (bytes : List Byte) {offset n : Nat} (ch : Byte)
    (inside : offset + n ≤ bytes.length) :
    moved bytes offset ch n = (bytes.drop offset).take n := by
  induction n generalizing offset ch with
  | zero => rfl
  | succ n ih =>
    have bound : offset < bytes.length := by omega
    rw [moved, if_pos bound, ih _ (by omega), List.drop_eq_getElem_cons bound, List.take_succ_cons,
      List.getD_eq_getElem?_getD, List.getElem?_eq_getElem bound, Option.getD_some]

end Loop

namespace System

variable {s : System} {c src dst : Word} {d e : Descriptor} {ch : Byte}

/-- One `Read` of the loop. -/
theorem read_step (pair : s.files.Pair src dst d e) (injective : s.view.mmu.Injective)
    (writable : s.view.Writable c 1) (held : s.view.bytes c = some ch) :
    ∃ s' k', s.perform .read [c, 1, src] = .ok s' ∧
      s'.view = { s.view with
        bytes := Function.update s.view.bytes c
          (some ((s.files.host.contents d.inode).getD d.offset ch))
        files := k' } ∧
      k'.Pair src dst { d with offset := if d.offset < (s.files.host.contents d.inode).length
        then d.offset + 1 else d.offset } e ∧
      k'.host.contents = s.files.host.contents ∧ k'.host.names = s.files.host.names := by
  obtain ⟨⟨a, f, b, g, first, second, objects, files, reads, writes⟩, apart⟩ := pair
  have small := first.ready.small
  by_cases inside : d.offset < (s.files.host.contents d.inode).length
  · have there := List.getElem?_eq_getElem inside
    obtain ⟨s', run, looks⟩ := (invokes_read_byte first reads injective writable there).perform
    rw [List.getD_eq_getElem?_getD, there, Option.getD_some, if_pos inside]
    exact ⟨s', _, run, looks, ⟨⟨a, { f with currentOffset := (d.offset + 1 : Nat) }, b, g,
      first.transferred (by omega) small,
      second.transferred_other objects.symm files.symm second.ready.small, objects, files, reads,
      writes⟩, apart⟩, rfl, rfl⟩
  · obtain ⟨s', run, looks⟩ := (invokes_read_end first reads (by omega)).perform
    have past := List.getElem?_eq_none (Nat.le_of_not_lt inside)
    have same : Function.update s.view.bytes c (some ch) = s.view.bytes :=
      Function.update_eq_self_iff.mpr held.symm
    rw [List.getD_eq_getElem?_getD, past, Option.getD_none, if_neg inside, same]
    exact ⟨s', _, run, looks, ⟨⟨a, { f with currentOffset := d.offset }, b, g,
      first.transferred first.ready.offset small,
      second.transferred_other objects.symm files.symm second.ready.small, objects, files, reads,
      writes⟩, apart⟩, rfl, rfl⟩

theorem written_end {contents : Nat → List Byte} {inode offset : Nat}
    (last : offset = (contents inode).length) (ch : Byte) :
    written contents inode offset ch =
      Function.update contents inode (contents inode ++ [ch]) := by
  unfold written
  rw [last, List.take_length, List.drop_eq_nil_of_le (Nat.le_succ _), List.append_nil]

/-- One `Write` of the loop, at the end of the file. -/
theorem write_step (pair : s.files.Pair src dst d e) (held : s.view.bytes c = some ch)
    (last : e.offset = (s.files.host.contents e.inode).length) :
    (e.offset + 1 ≤ OFF_MAX ∧ ∃ s' k', s.perform .write [c, 1, dst] = .ok s' ∧
      s'.view = { s.view with files := k' } ∧
      k'.Pair src dst d { e with offset := e.offset + 1 } ∧
      k'.host.contents = Function.update s.files.host.contents e.inode
        (s.files.host.contents e.inode ++ [ch]) ∧ k'.host.names = s.files.host.names) ∨
    (OFF_MAX < e.offset + 1 ∧ s.perform .write [c, 1, dst] = .error (.fault .assertion)) := by
  obtain ⟨⟨a, f, b, g, first, second, objects, files, reads, writes⟩, apart⟩ := pair
  rcases invoke_write_byte second writes held (Nat.le_of_eq last) with ⟨room, invokes⟩ | ⟨full, run⟩
  · obtain ⟨s', run, looks⟩ := invokes.perform
    rw [written_end last] at looks
    refine .inl ⟨room, s', _, run, looks, ⟨⟨a, f, b,
      { g with currentOffset := (e.offset + 1 : Nat) }, ?_, ?_, objects, files, reads, writes⟩,
      apart⟩, rfl, rfl⟩
    · apply first.transferred_other objects files
      rw [Function.update_of_ne apart]
      exact first.ready.small
    · apply second.transferred room
      rw [Function.update_self, List.length_append, ← last]
      exact room
  · refine .inr ⟨full, ?_⟩
    unfold System.perform
    rw [run]
    rfl

/-- One round of the loop: `c` and the end of the file written to get the byte that was read,
or the value that `c` had. -/
theorem round_step (pair : s.files.Pair src dst d e) (injective : s.view.mmu.Injective)
    (writable : s.view.Writable c 1) (held : s.view.bytes c = some ch)
    (last : e.offset = (s.files.host.contents e.inode).length) {next : Byte}
    (read : (s.files.host.contents d.inode).getD d.offset ch = next) :
    (e.offset + 1 ≤ OFF_MAX ∧ ∃ s' k',
      (∀ n, transfer c src dst (n + 1) s = transfer c src dst n s') ∧
      s'.view = { s.view with
        bytes := Function.update s.view.bytes c (some next), files := k' } ∧
      k'.Pair src dst { d with offset := if d.offset < (s.files.host.contents d.inode).length
        then d.offset + 1 else d.offset } { e with offset := e.offset + 1 } ∧
      k'.host.contents = Function.update s.files.host.contents e.inode
        (s.files.host.contents e.inode ++ [next]) ∧ k'.host.names = s.files.host.names) ∨
    (OFF_MAX < e.offset + 1 ∧
      ∀ n, transfer c src dst (n + 1) s = .error (.fault .assertion)) := by
  obtain ⟨s₁, k₁, reads, view₁, pair₁, contents₁, names₁⟩ :=
    read_step pair injective writable held
  rw [read] at view₁
  have files₁ : s₁.files = k₁ := congrArg View.files view₁
  have held₁ : s₁.view.bytes c = some next := by
    rw [view₁]
    exact Function.update_self _ _ _
  subst files₁
  rw [← contents₁] at last
  rcases write_step pair₁ held₁ last with
    ⟨room, s₂, k₂, writes, view₂, pair₂, contents₂, names₂⟩ | ⟨full, writes⟩
  · refine .inl ⟨room, s₂, k₂, ?_, by rw [view₂, view₁], pair₂, by rw [contents₂, contents₁],
      names₂.trans names₁⟩
    intro n
    simp only [transfer, reads, writes, Exec.ok_bind]
  · refine .inr ⟨full, ?_⟩
    intro n
    simp only [transfer, reads, writes, Exec.ok_bind]
    rfl

/-- The loop appends what its rounds read to the file it writes to, unless the file gets too
long for the host. -/
theorem transfer_spec (pair : s.files.Pair src dst d e) (injective : s.view.mmu.Injective)
    (writable : s.view.Writable c 1) (held : s.view.bytes c = some ch)
    (last : e.offset = (s.files.host.contents e.inode).length) (n : Nat) :
    (e.offset + n ≤ OFF_MAX ∧ ∃ s' bytes k' d' e', transfer c src dst n s = .ok s' ∧
      s'.view = { s.view with bytes, files := k' } ∧
      (∀ x, x ≠ c → bytes x = s.view.bytes x) ∧ k'.Pair src dst d' e' ∧
      k'.host.contents = Function.update s.files.host.contents e.inode
        (s.files.host.contents e.inode ++ moved (s.files.host.contents d.inode) d.offset ch n) ∧
      k'.host.names = s.files.host.names) ∨
    (OFF_MAX < e.offset + n ∧ transfer c src dst n s = .error (.fault .assertion)) := by
  -- Each round: `c` holds the byte read last, and the offset written to is the length.
  induction n generalizing s d e ch with
  | zero =>
    obtain ⟨a, f, b, g, first, second, -⟩ := pair.opened
    refine .inl ⟨second.ready.offset, s, s.view.bytes, s.files, d, e, rfl, rfl, fun _ _ => rfl,
      pair, ?_, rfl⟩
    rw [moved, List.append_nil, Function.update_eq_self]
  | succ n ih =>
    have total : e.offset + (n + 1) = e.offset + 1 + n := by omega
    rcases round_step pair injective writable held last rfl with
      ⟨room, s₁, k₁, loop, view₁, pair₁, contents₁, names₁⟩ | ⟨full, loop⟩
    · have files₁ : s₁.files = k₁ := congrArg View.files view₁
      have held₁ : s₁.view.bytes c =
          some ((s.files.host.contents d.inode).getD d.offset ch) := by
        rw [view₁]
        exact Function.update_self _ _ _
      have mmu : s₁.view.mmu = s.view.mmu := by rw [view₁]
      subst files₁
      have same : s₁.files.host.contents d.inode = s.files.host.contents d.inode := by
        rw [contents₁, Function.update_of_ne pair.apart]
      have grown : s₁.files.host.contents e.inode = s.files.host.contents e.inode ++
          [(s.files.host.contents d.inode).getD d.offset ch] := by
        rw [contents₁, Function.update_self]
      have last₁ : e.offset + 1 = (s₁.files.host.contents e.inode).length := by
        rw [grown, List.length_append, ← last, List.length_singleton]
      rcases ih pair₁ (mmu ▸ injective) (fun j hj => mmu ▸ writable j hj) held₁ last₁ with
        ⟨room', s', bytes, k', d', e', run, looks, frame, pair', contents', names'⟩ | ⟨full, run⟩
      · refine .inl ⟨total.trans_le room', s', bytes, k', d', e', (loop n).trans run, ?_, ?_, pair',
          ?_, names'.trans names₁⟩
        · rw [looks, view₁]
        · intro x other
          rw [frame x other, view₁]
          exact Function.update_of_ne other _ _
        · simp only [same, grown] at contents'
          rw [contents', contents₁, Function.update_idem, moved, List.append_assoc,
            List.singleton_append]
      · exact .inr ⟨full.trans_eq total.symm, (loop n).trans run⟩
    · exact .inr ⟨by omega, loop n⟩

section Files

variable {l : Layout}

/-- The program between two calls, with a file to read from and a file to write to. -/
structure Working (s : System) (l : Layout) (src dst : Word) (d e : Descriptor) : Prop where
  loaded : l.Loaded s.view
  pair : s.files.Pair src dst d e

theorem perform_of_invoke {call : SystemCall} {arguments : List Word} {r : Word} {s' : System}
    (run : s.invoke .unasked call arguments = .ok (r, s')) : s.perform call arguments = .ok s' := by
  unfold perform
  rw [run, Exec.ok_bind]

theorem Working.seek_src (working : s.Working l src dst d e) {pos : Word} {p : Nat}
    (target : s.files.seekTarget d pos = p) (inside : p ≤ s.files.fileLength d) :
    ∃ s', s.invoke .unasked .seek [pos, src] = .ok (BitVec.ofInt 32 p, s') ∧
      s'.Working l src dst { d with offset := p } e ∧
      s'.files.host.contents = s.files.host.contents ∧
      s'.files.host.names = s.files.host.names := by
  obtain ⟨k, sought, pair, contents, names⟩ := working.pair.seek_src target inside
  obtain ⟨s', run, looks⟩ := invokes_seek sought
  have files : s'.files = k := congrArg View.files looks
  subst files
  exact ⟨s', run, ⟨looks ▸ working.loaded.kept fun _ _ => rfl, pair⟩, contents, names⟩

theorem Working.seek_dst (working : s.Working l src dst d e) {pos : Word} {p : Nat}
    (target : s.files.seekTarget e pos = p) (inside : p ≤ s.files.fileLength e) :
    ∃ s', s.invoke .unasked .seek [pos, dst] = .ok (BitVec.ofInt 32 p, s') ∧
      s'.Working l src dst d { e with offset := p } ∧
      s'.files.host.contents = s.files.host.contents ∧
      s'.files.host.names = s.files.host.names := by
  obtain ⟨k, sought, pair, contents, names⟩ := working.pair.seek_dst target inside
  obtain ⟨s', run, looks⟩ := invokes_seek sought
  have files : s'.files = k := congrArg View.files looks
  subst files
  exact ⟨s', run, ⟨looks ▸ working.loaded.kept fun _ _ => rfl, pair⟩, contents, names⟩

theorem Working.report (working : s.Working l src dst d e) {a : Word}
    (member : a ∈ [l.greeting, l.askFirst, l.askSecond, l.success, l.secondFailed,
      l.firstFailed]) :
    ∃ s', s.perform .printString [a] = .ok s' ∧ s'.Working l src dst d e ∧ s'.files = s.files := by
  obtain ⟨s', run, looks⟩ := print_message working.loaded member
  have files : s'.files = s.files := congrArg View.files looks
  exact ⟨s', run, ⟨looks ▸ working.loaded, files ▸ working.pair⟩, files⟩

/-- A byte that can be written has some value. -/
theorem Working.held (working : s.Working l src dst d e) : ∃ ch, s.view.bytes l.c = some ch := by
  obtain ⟨p, reached⟩ := view_writable working.loaded.c 0 Nat.one_pos
  rw [BitVec.add_zero] at reached
  refine ⟨s.memory.mainMemory p, ?_⟩
  simp only [view, Memory.byteAt, Mmu.physical_of_writable reached, Option.map_some]

/-- The loop, from the end of the file it writes to. -/
theorem Working.transfer (working : s.Working l src dst d e)
    (last : e.offset = (s.files.host.contents e.inode).length) (n : Nat) :
    (e.offset + n ≤ OFF_MAX ∧ ∃ ch s' d' e', System.transfer l.c src dst n s = .ok s' ∧
      s'.Working l src dst d' e' ∧
      s'.files.host.contents = Function.update s.files.host.contents e.inode
        (s.files.host.contents e.inode ++ moved (s.files.host.contents d.inode) d.offset ch n) ∧
      s'.files.host.names = s.files.host.names) ∨
    (OFF_MAX < e.offset + n ∧ System.transfer l.c src dst n s = .error (.fault .assertion)) := by
  obtain ⟨ch, held⟩ := working.held
  rcases transfer_spec working.pair working.loaded.injective working.loaded.c held last n with
    ⟨room, s', bytes, k, d', e', run, looks, frame, pair, contents, names⟩ | full
  · have files : s'.files = k := congrArg View.files looks
    subst files
    refine .inl ⟨room, ch, s', d', e', run, ⟨looks ▸ working.loaded.kept ?_, pair⟩, contents, names⟩
    intro x free
    apply frame
    rintro rfl
    exact free (.inr (.inr rfl))
  · exact .inr full

/-- The size of a file is an `int`. -/
theorem Working.length_le (working : s.Working l src dst d e) :
    (s.files.host.contents d.inode).length ≤ OFF_MAX ∧
      (s.files.host.contents e.inode).length ≤ OFF_MAX := by
  obtain ⟨a, f, b, g, first, second, -⟩ := working.pair.opened
  exact ⟨first.ready.small, second.ready.small⟩

theorem toInt_ofInt_nat {n : Nat} (small : n ≤ OFF_MAX) : (BitVec.ofInt 32 n).toInt = n := by
  have top : OFF_MAX = 2147483647 := rfl
  rw [BitVec.toInt_ofInt, Int.bmod_eq_of_le (by omega) (by omega)]

theorem seekTarget_end (k : Stub.Kernel) (d : Descriptor) :
    k.seekTarget d (-1) = (k.fileLength d : Nat) := rfl

theorem seekTarget_zero (k : Stub.Kernel) (d : Descriptor) :
    k.seekTarget d 0 = (0 : Nat) := rfl

/-- `copy.c` with both files open: the one it writes to becomes like the one it reads from. -/
theorem copyBytes_spec (working : s.Working l src dst d e)
    (empty : s.files.host.contents e.inode = []) :
    ∃ s' k, s.copyBytes l src dst = .ok s' ∧ s'.files.sysClose src.toInt = .ok (0, k) ∧
      k.host.contents =
        Function.update s.files.host.contents e.inode (s.files.host.contents d.inode) ∧
      k.host.names = s.files.host.names := by
  obtain ⟨s₁, run₁, working₁, contents₁, names₁⟩ :=
    working.seek_src (seekTarget_end _ _) le_rfl
  obtain ⟨s₂, run₂, working₂, contents₂, names₂⟩ :=
    working₁.seek_src (seekTarget_zero _ _) (Nat.zero_le _)
  obtain ⟨s₃, run₃, working₃, contents₃, names₃⟩ :=
    working₂.seek_dst (seekTarget_zero _ _) (Nat.zero_le _)
  have same : s₃.files.host.contents = s.files.host.contents := by
    rw [contents₃, contents₂, contents₁]
  have small : s.files.fileLength d ≤ OFF_MAX := working.length_le.1
  have size : (BitVec.ofInt 32 (s.files.fileLength d)).toInt.toNat = s.files.fileLength d := by
    rw [toInt_ofInt_nat small, Int.toNat_natCast]
  rcases working₃.transfer (by simp only [same, empty, List.length_nil]) (s.files.fileLength d) with
    ⟨-, ch, s₄, d', e', run₄, working₄, contents₄, names₄⟩ | ⟨full, -⟩
  · obtain ⟨s₅, run₅, working₅, files₅⟩ := working₄.report (a := l.success) (by simp)
    obtain ⟨k₁, k₂, closed, closed', contents₆, names₆⟩ := working₅.pair.close_dst_src
    obtain ⟨s₆, run₆, looks⟩ := invokes_close closed
    have files₆ : s₆.files = k₁ := congrArg View.files looks
    subst files₆
    refine ⟨s₆, k₂, ?_, closed', ?_, ?_⟩
    · simp only [copyBytes, run₁, perform_of_invoke run₂, perform_of_invoke run₃, size, run₄, run₅,
        perform_of_invoke run₆, Exec.ok_bind]
    · simp only [contents₆, files₅, contents₄, same, empty, List.nil_append]
      unfold Stub.Kernel.fileLength
      rw [moved_inside _ _ (by omega), List.drop_zero, List.take_length]
    · rw [names₆, files₅, names₄, names₃, names₂, names₁]
  · simp only at full
    omega

theorem seekTarget_nat (k : Stub.Kernel) (d : Descriptor) {n : Nat} (small : n ≤ OFF_MAX) :
    k.seekTarget d (BitVec.ofInt 32 n) = n := by
  have position : (BitVec.ofInt 32 n).toInt = n := toInt_ofInt_nat small
  have other : ¬ (n : Int) = -1 := by omega
  unfold Stub.Kernel.seekTarget
  rw [position, if_neg other]

/-- `concatenate.c` with both files open: as many bytes are added to the one it writes to as
are in it. -/
theorem appendBytes_spec (working : s.Working l src dst d e) :
    (s.files.fileLength e + s.files.fileLength e ≤ OFF_MAX ∧ ∃ ch s' k,
      s.appendBytes l dst src = .ok s' ∧ l.Loaded s'.view ∧
      s'.files.sysClose dst.toInt = .ok (0, k) ∧
      k.host.contents = Function.update s.files.host.contents e.inode
        (s.files.host.contents e.inode ++
          moved (s.files.host.contents d.inode) 0 ch (s.files.fileLength e)) ∧
      k.host.names = s.files.host.names) ∨
    (OFF_MAX < s.files.fileLength e + s.files.fileLength e ∧
      s.appendBytes l dst src = .error (.fault .assertion)) := by
  have small : s.files.fileLength e ≤ OFF_MAX := working.length_le.2
  obtain ⟨s₁, run₁, working₁, contents₁, names₁⟩ :=
    working.seek_dst (seekTarget_end _ _) le_rfl
  obtain ⟨s₂, run₂, working₂, contents₂, names₂⟩ :=
    working₁.seek_src (seekTarget_end _ _) le_rfl
  have same₂ : s₂.files.host.contents = s.files.host.contents := contents₂.trans contents₁
  obtain ⟨s₃, run₃, working₃, contents₃, names₃⟩ :=
    working₂.seek_dst (seekTarget_nat _ _ small) (by unfold Stub.Kernel.fileLength; rw [same₂])
  obtain ⟨s₄, run₄, working₄, contents₄, names₄⟩ :=
    working₃.seek_src (seekTarget_zero _ _) (Nat.zero_le _)
  have same : s₄.files.host.contents = s.files.host.contents := by
    rw [contents₄, contents₃, same₂]
  have size : (BitVec.ofInt 32 (s.files.fileLength e)).toInt.toNat = s.files.fileLength e := by
    rw [toInt_ofInt_nat small, Int.toNat_natCast]
  rcases working₄.transfer (by simp only [same]; rfl) (s.files.fileLength e) with
    ⟨room, ch, s₅, d', e', run₅, working₅, contents₅, names₅⟩ | ⟨full, run₅⟩
  · obtain ⟨s₆, run₆, working₆, files₆⟩ := working₅.report (a := l.success) (by simp)
    obtain ⟨k₁, k₂, closed, closed', contents₇, names₇⟩ := working₆.pair.close_src_dst
    obtain ⟨s₇, run₇, looks⟩ := invokes_close closed
    have files₇ : s₇.files = k₁ := congrArg View.files looks
    subst files₇
    refine .inl ⟨room, ch, s₇, k₂, ?_, looks ▸ working₆.loaded.kept fun _ _ => rfl, closed', ?_, ?_⟩
    · simp only [appendBytes, run₁, perform_of_invoke run₂, perform_of_invoke run₃,
        perform_of_invoke run₄, size, run₅, run₆, perform_of_invoke run₇, Exec.ok_bind]
    · simp only [contents₇, files₆, contents₅, same]
    · rw [names₇, files₆, names₅, names₄, names₃, names₂, names₁]
  · refine .inr ⟨full, ?_⟩
    simp only [appendBytes, run₁, perform_of_invoke run₂, perform_of_invoke run₃,
      perform_of_invoke run₄, size, run₅, Exec.ok_bind]
    rfl

end Files

section Programs

/-- The contents of the file that has the name. -/
def fileNamed (s : System) (name : List Byte) : Option (List Byte) :=
  (s.files.host.names name).map s.files.host.contents

/-- The program is started with the file system as its constructor leaves it
(`Stub.Kernel.boot_started`), and two names that fit into the buffers are typed. -/
structure Prompted (s : System) (l : Layout) (name name2 : List Byte) : Prop where
  started : s.files.Started
  loaded : l.Loaded s.view
  typable : Typable name
  typable2 : Typable name2
  short : name.length < 32
  short2 : name2.length < 32
  typed : ∃ later, s.input = name ++ 10 :: (name2 ++ 10 :: later)

/-- The source of `copy.c` exists, the destination is not the same file, and the host allows
the opens: the source has a size that `off_t` can express, and each descriptor is free when it
is given. `Close(0)` has closed the console's by the third call. -/
structure CanCopy (s : System) (l : Layout) (answers : Nat → Answers) (source dest : List Byte)
    (inode : Nat) : Prop extends s.Prompted l source dest where
  found : s.files.host.names source = some inode
  old : inode < s.files.host.nextInode
  different : s.files.host.names dest ≠ some inode
  nonempty : dest ≠ []
  small : (s.files.host.contents inode).length ≤ OFF_MAX
  granted : ∃ fd fd2 fd3, (answers 0).grant = some fd ∧ (answers 1).grant = some fd2 ∧
    (answers 2).grant = some fd3 ∧ s.files.host.fds fd = none ∧
    (s.files.host.fds fd2 = none ∧ fd2 ≠ fd) ∧
    (s.files.host.fds fd3 = none ∨ s.files.consoleFile = some fd3) ∧ fd3 ≠ fd

variable {l : Layout} {answers : Nat → Answers} {source dest : List Byte} {inode : Nat}

/-- `copy.c` opens the source, makes and opens the destination, and copies. -/
theorem copy_run (can : s.CanCopy l answers source dest inode) :
    ∃ s' inode2, s.copy l answers = .ok s' ∧ inode ≠ inode2 ∧
      s'.files.host.names = Function.update s.files.host.names dest (some inode2) ∧
      s'.files.host.contents =
        Function.update s.files.host.contents inode2 (s.files.host.contents inode) := by
  obtain ⟨later, typed⟩ := can.typed
  obtain ⟨fd, fd2, fd3, grant, grant2, grant3, unopened, ⟨unopened2, apart2⟩, unopened3, apart3⟩ :=
    can.granted
  obtain ⟨s₀, bytes, asked, view₀, string, string2, kept⟩ :=
    askNames_spec can.loaded can.typable can.typable2 can.short can.short2 typed
  obtain ⟨k₁, k₂, r, k₃, k₄, inode2, opened, created, closed, -, opened', pair, contents, names⟩ :=
    can.started.open_created can.found can.old can.different can.nonempty can.small unopened
      unopened2 apart2 unopened3 apart3
  have bytes₀ : s₀.view.bytes = bytes := by rw [view₀]
  have files₀ : s₀.files = s.files := congrArg View.files view₀
  rw [← files₀, ← grant] at opened
  obtain ⟨s₁, run₁, view₁⟩ :=
    invokes_openFile (bytes₀.symm ▸ string) can.short
      (show s₀.files.sysOpen source (1 : Word).toInt _ = _ from opened)
  have bytes₁ : s₁.view.bytes = bytes := by rw [view₁, bytes₀]
  have files₁ : s₁.files = k₁ := congrArg View.files view₁
  rw [← files₁, ← grant2] at created
  obtain ⟨s₂, run₂, view₂⟩ := invokes_create (bytes₁.symm ▸ string2) can.short2 created
  have files₂ : s₂.files = k₂ := congrArg View.files view₂
  rw [← files₂] at closed
  obtain ⟨s₃, run₃, view₃⟩ := invokes_close
    (show s₂.files.sysClose (BitVec.ofInt 32 0).toInt = _ from closed)
  have bytes₃ : s₃.view.bytes = bytes := by rw [view₃, view₂, bytes₁]
  have files₃ : s₃.files = k₃ := congrArg View.files view₃
  rw [← files₃, ← grant3] at opened'
  obtain ⟨s₄, run₄, view₄⟩ :=
    invokes_openFile (bytes₃.symm ▸ string2) can.short2
      (show s₃.files.sysOpen dest (0 : Word).toInt _ = _ from opened')
  have files₄ : s₄.files = k₄ := congrArg View.files view₄
  subst files₄
  have loaded : l.Loaded s₄.view := by
    rw [view₄, view₃, view₂, view₁, view₀]
    exact can.loaded.kept kept
  obtain ⟨s₅, k, run₅, closed', contents₅, names₅⟩ :=
    copyBytes_spec ⟨loaded, pair⟩ (by rw [contents, Function.update_self])
  obtain ⟨s₆, run₆, view₆⟩ := invokes_close closed'
  have files₆ : s₆.files = k := congrArg View.files view₆
  subst files₆
  refine ⟨s₆, inode2, ?_, pair.apart, names₅.trans names, ?_⟩
  · have src_open : BitVec.ofInt 32 ((2 : Nat) : Int) ≠ (-1 : Word) := by decide
    have dst_open : BitVec.ofInt 32 ((3 : Nat) : Int) ≠ (-1 : Word) := by decide
    have copied : s₄.copyBytes l (BitVec.ofInt 32 (2 : Nat)) (BitVec.ofInt 32 (3 : Nat)) = .ok s₅ :=
      run₅
    simp only [copy, asked, run₁, run₂, perform_of_invoke run₃, run₄, Exec.ok_bind,
      if_pos src_open, if_pos dst_open, copied]
    exact perform_of_invoke run₆
  · rw [contents₅, contents, Function.update_idem, Function.update_of_ne pair.apart]

/-- `copy.c` makes the destination a copy of the source and leaves the source as it is. -/
theorem copy_copies (can : s.CanCopy l answers source dest inode) :
    ∃ s', s.copy l answers = .ok s' ∧ s'.invoke .unasked .halt [] = .error (.fault .halted) ∧
      s'.fileNamed dest = s.fileNamed source ∧ s'.fileNamed source = s.fileNamed source := by
  obtain ⟨s', inode2, run, apart, names, contents⟩ := copy_run can
  have others : source ≠ dest := by
    rintro rfl
    exact can.different can.found
  refine ⟨s', run, rfl, ?_, ?_⟩
  · simp only [fileNamed, names, contents, Function.update_self, can.found, Option.map_some]
  · simp only [fileNamed, names, contents, Function.update_of_ne others, can.found,
      Option.map_some, Function.update_of_ne apart]

end Programs

section Sample

/-- A host with the files "a" and "b". -/
def twoFiles (first second : List Byte) : Host where
  names := fun name => if name = [97] then some 0 else if name = [98] then some 1 else none
  contents := fun inode => if inode = 0 then first else if inode = 1 then second else []
  fds := fun _ => none
  nextInode := 2

/-- The file system on that host. -/
def bootedFiles (first second : List Byte) : Stub.Kernel :=
  match Stub.Kernel.boot (twoFiles first second) Stub.nameInMemory fun i => some (i + 3) with
  | .ok k => k
  | .error _ => Stub.Kernel.empty (twoFiles first second) Stub.nameInMemory

/-- One page of memory, and the names "a" and "b" to be typed. -/
def sampleSystem (first second : List Byte) : System where
  registers := fun _ => 0
  memory := programMemory []
  files := bootedFiles first second
  input := [97, 10, 98, 10]
  output := []

def sampleLayout : Layout := ⟨0, 32, 64, 65, 65, 65, 65, 65, 65⟩

def sampleAnswers (call : Nat) : Answers := ⟨some (call + 7), false, 0⟩

/-- The variables are from address 0 to 64. -/
theorem sample_owned {x : Word} (owned : sampleLayout.Owned x) : x ≠ 65 := by
  have low : ∀ j < 32, (0 : Word) + BitVec.ofNat 32 j ≠ 65 := by decide
  have high : ∀ j < 32, (32 : Word) + BitVec.ofNat 32 j ≠ 65 := by decide
  rcases owned with ⟨j, hj, rfl⟩ | ⟨j, hj, rfl⟩ | rfl
  · exact low j hj
  · exact high j hj
  · decide

theorem sample_writable (first second : List Byte) {a n : Nat} (inside : a + n ≤ 65) :
    (sampleSystem first second).view.Writable (BitVec.ofNat 32 a) n := by
  have mapped : ∀ j < 65, (programMemory []).mmu.cleared.physical (BitVec.ofNat 32 j) true =
      some j := by
    decide +kernel
  intro j hj
  rw [← BitVec.ofNat_add]
  exact ⟨a + j, mapped _ (by omega)⟩

theorem sample_loaded (first second : List Byte) :
    sampleLayout.Loaded (sampleSystem first second).view where
  injective := identity_injective 1
  source := sample_writable first second (show 0 + 32 ≤ 65 by decide)
  source2 := sample_writable first second (show 32 + 32 ≤ 65 by decide)
  c := sample_writable first second (show 64 + 1 ≤ 65 by decide)
  buffers := by decide +kernel
  outside := by decide +kernel
  messages := by
    intro a member
    have same : a = 65 := by simpa [sampleLayout] using member
    refine ⟨[], by decide, ⟨by decide, nofun, ?_⟩, ?_⟩
    · rw [same]
      rfl
    · intro j hj owned
      rw [Nat.le_zero.mp hj, same] at owned
      exact sample_owned owned rfl

theorem sample_prompted (first second : List Byte) :
    (sampleSystem first second).Prompted sampleLayout [97] [98] where
  started := Stub.Kernel.boot_started (rfl : Stub.Kernel.boot (twoFiles first second)
    Stub.nameInMemory (fun i => some (i + 3)) = .ok (bootedFiles first second))
  loaded := sample_loaded first second
  typable := by unfold Typable; decide
  typable2 := by unfold Typable; decide
  short := by decide
  short2 := by decide
  typed := ⟨[], rfl⟩

/-- A file with a zero byte in it is copied over another one. -/
theorem copy_copies_zero_byte :
    ∃ s', (sampleSystem [7, 0, 9] [1]).copy sampleLayout sampleAnswers = .ok s' ∧
      s'.invoke .unasked .halt [] = .error (.fault .halted) ∧
      s'.fileNamed [98] = some [7, 0, 9] ∧ s'.fileNamed [97] = some [7, 0, 9] := by
  have can : (sampleSystem [7, 0, 9] [1]).CanCopy sampleLayout sampleAnswers [97] [98] 0 :=
    { toPrompted := sample_prompted [7, 0, 9] [1]
      found := rfl
      old := by decide
      different := by decide
      nonempty := by decide
      small := by decide
      granted := ⟨7, 8, 9, rfl, rfl, rfl, rfl, ⟨rfl, by decide⟩, .inl rfl, by decide⟩ }
  exact copy_copies can

end Sample

section Programs

variable {l : Layout} {answers : Nat → Answers} {source source2 : List Byte} {inode inode2 : Nat}

/-- Both files of `concatenate.c` exist, are different ones, and the host allows the opens. -/
structure CanConcatenate (s : System) (l : Layout) (answers : Nat → Answers)
    (source source2 : List Byte) (inode inode2 : Nat) : Prop
    extends s.Prompted l source source2 where
  found : s.files.host.names source = some inode
  found2 : s.files.host.names source2 = some inode2
  different : inode2 ≠ inode
  small : (s.files.host.contents inode).length ≤ OFF_MAX
  small2 : (s.files.host.contents inode2).length ≤ OFF_MAX
  granted : ∃ fd fd2, (answers 0).grant = some fd ∧ (answers 1).grant = some fd2 ∧
    s.files.host.fds fd = none ∧ s.files.host.fds fd2 = none ∧ fd2 ≠ fd

/-- `concatenate.c` adds as many bytes to the first file as are in it. -/
theorem concatenate_run (can : s.CanConcatenate l answers source source2 inode inode2) :
    ((s.files.host.contents inode).length + (s.files.host.contents inode).length ≤ OFF_MAX ∧
      ∃ s' ch, s.concatenate l answers = .ok s' ∧ s'.files.host.names = s.files.host.names ∧
      s'.files.host.contents = Function.update s.files.host.contents inode
        (s.files.host.contents inode ++ moved (s.files.host.contents inode2) 0 ch
          (s.files.host.contents inode).length)) ∨
    (OFF_MAX < (s.files.host.contents inode).length + (s.files.host.contents inode).length ∧
      s.concatenate l answers = .error (.fault .assertion)) := by
  obtain ⟨later, typed⟩ := can.typed
  obtain ⟨fd, fd2, grant, grant2, unopened, unopened2, apart⟩ := can.granted
  obtain ⟨s₀, bytes, asked, view₀, string, string2, kept⟩ :=
    askNames_spec can.loaded can.typable can.typable2 can.short can.short2 typed
  obtain ⟨k₁, k₂, opened, opened', pair, contents, names⟩ :=
    can.started.open_both can.found can.found2 can.different can.small can.small2 unopened
      unopened2 apart
  have bytes₀ : s₀.view.bytes = bytes := by rw [view₀]
  have files₀ : s₀.files = s.files := congrArg View.files view₀
  rw [← files₀, ← grant] at opened
  obtain ⟨s₁, run₁, view₁⟩ :=
    invokes_openFile (bytes₀.symm ▸ string) can.short
      (show s₀.files.sysOpen source (0 : Word).toInt _ = _ from opened)
  have bytes₁ : s₁.view.bytes = bytes := by rw [view₁, bytes₀]
  have files₁ : s₁.files = k₁ := congrArg View.files view₁
  rw [← files₁, ← grant2] at opened'
  obtain ⟨s₂, run₂, view₂⟩ :=
    invokes_openFile (bytes₁.symm ▸ string2) can.short2
      (show s₁.files.sysOpen source2 (1 : Word).toInt _ = _ from opened')
  have files₂ : s₂.files = k₂ := congrArg View.files view₂
  subst files₂
  have loaded : l.Loaded s₂.view := by
    rw [view₂, view₁, view₀]
    exact can.loaded.kept kept
  have src_open : BitVec.ofInt 32 ((2 : Nat) : Int) ≠ (-1 : Word) := by decide
  have src2_open : BitVec.ofInt 32 ((3 : Nat) : Int) ≠ (-1 : Word) := by decide
  have spec := appendBytes_spec ⟨loaded, pair⟩
  unfold Stub.Kernel.fileLength at spec
  simp only [contents, names] at spec
  rcases spec with ⟨room, ch, s₃, k, run₃, loaded₃, closed, contents₃, names₃⟩ | ⟨full, run₃⟩
  · obtain ⟨s₄, run₄, view₄⟩ := print_message loaded₃ (a := l.secondFailed) (by simp)
    have files₄ : s₄.files = s₃.files := congrArg View.files view₄
    rw [← files₄] at closed
    obtain ⟨s₅, run₅, view₅⟩ := invokes_close closed
    have files₅ : s₅.files = k := congrArg View.files view₅
    subst files₅
    have added : s₂.appendBytes l (BitVec.ofInt 32 (2 : Nat)) (BitVec.ofInt 32 (3 : Nat)) =
        .ok s₃ := run₃
    refine .inl ⟨room, s₅, ch, ?_, names₃, contents₃⟩
    simp only [concatenate, asked, run₁, run₂, Exec.ok_bind, if_pos src_open, if_pos src2_open,
      added, run₄]
    exact perform_of_invoke run₅
  · have failed : s₂.appendBytes l (BitVec.ofInt 32 (2 : Nat)) (BitVec.ofInt 32 (3 : Nat)) =
        .error (.fault .assertion) := run₃
    refine .inr ⟨full, ?_⟩
    simp only [concatenate, asked, run₁, run₂, Exec.ok_bind, if_pos src_open, if_pos src2_open,
      failed]
    rfl

/-- `concatenate.c` adds the second file to the first if they have the same length and the
host can store the result: its loop runs to `fileSize` and not to `fileSize2`. -/
theorem concatenate_appends_iff (can : s.CanConcatenate l answers source source2 inode inode2) :
    (∃ s', s.concatenate l answers = .ok s' ∧
      s'.invoke .unasked .halt [] = .error (.fault .halted) ∧
      s'.fileNamed source = some (s.files.host.contents inode ++ s.files.host.contents inode2) ∧
      s'.fileNamed source2 = some (s.files.host.contents inode2)) ↔
    (s.files.host.contents inode).length = (s.files.host.contents inode2).length ∧
      (s.files.host.contents inode).length + (s.files.host.contents inode2).length ≤ OFF_MAX := by
  rcases concatenate_run can with ⟨room, s', ch, run, names, contents⟩ | ⟨full, run⟩
  · have first : s'.fileNamed source = some (s.files.host.contents inode ++
        moved (s.files.host.contents inode2) 0 ch (s.files.host.contents inode).length) := by
      simp only [fileNamed, names, contents, can.found, Option.map_some, Function.update_self]
    have second : s'.fileNamed source2 = some (s.files.host.contents inode2) := by
      simp only [fileNamed, names, contents, can.found2, Option.map_some,
        Function.update_of_ne can.different]
    constructor
    · rintro ⟨s'', run', -, appended, -⟩
      rw [run] at run'
      cases run'
      rw [first, Option.some.injEq, List.append_cancel_left_eq] at appended
      have lengths := congrArg List.length appended
      rw [moved_length] at lengths
      exact ⟨lengths, by omega⟩
    · rintro ⟨lengths, -⟩
      refine ⟨s', run, rfl, ?_, second⟩
      rw [first, moved_inside _ _ (by omega), List.drop_zero, lengths, List.take_length]
  · constructor
    · rintro ⟨s'', run', -⟩
      rw [run] at run'
      cases run'
    · rintro ⟨lengths, room⟩
      omega

theorem sample_canConcatenate {first second : List Byte} (small : first.length ≤ OFF_MAX)
    (small2 : second.length ≤ OFF_MAX) :
    (sampleSystem first second).CanConcatenate sampleLayout sampleAnswers [97] [98] 0 1 where
  toPrompted := sample_prompted first second
  found := rfl
  found2 := rfl
  different := by decide
  small := small
  small2 := small2
  granted := ⟨7, 8, rfl, rfl, rfl, rfl, by decide⟩

/-- Two files of one byte each. -/
theorem concatenate_appends_one :
    ∃ s', (sampleSystem [1] [2]).concatenate sampleLayout sampleAnswers = .ok s' ∧
      s'.invoke .unasked .halt [] = .error (.fault .halted) ∧
      s'.fileNamed [97] = some [1, 2] ∧ s'.fileNamed [98] = some [2] :=
  (concatenate_appends_iff (sample_canConcatenate (by decide) (by decide))).mpr (by decide)

/-- A file of two bytes is not added as a whole to a file of one byte. -/
theorem concatenate_longer_second :
    (sampleSystem [1] [2, 3]).CanConcatenate sampleLayout sampleAnswers [97] [98] 0 1 ∧
      ∃ s', (sampleSystem [1] [2, 3]).concatenate sampleLayout sampleAnswers = .ok s' ∧
        s'.fileNamed [97] = some [1, 2] ∧ s'.fileNamed [97] ≠ some ([1] ++ [2, 3]) := by
  have can : (sampleSystem [1] [2, 3]).CanConcatenate sampleLayout sampleAnswers [97] [98] 0 1 :=
    sample_canConcatenate (by decide) (by decide)
  rcases concatenate_run can with ⟨-, s', ch, run, names, contents⟩ | ⟨full, -⟩
  · have result : s'.fileNamed [97] = some [1, 2] := by
      unfold fileNamed
      rw [names, contents]
      rfl
    exact ⟨can, s', run, result, by rw [result]; decide⟩
  · exact absurd full (by decide)

end Programs

end System

end NachOS.Userprog
