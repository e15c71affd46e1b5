import NachOS.Coff2noff.Convert

/-!
# Uninitialized data in several sections (coff2noff/coff2noff.c:267-283)

The header has room for one range of uninitialized data. A comment in the loop asks that
several sections be contiguous; the test below it gives up on those that are, and adds the
size of any other section to the range that it has. So the range is the right one as long
as there is one section with uninitialized data that is not empty, and at a second one the
loop does the opposite of what is asked for.
-/
namespace NachOS.Coff2noff
open NachOS.Lib NachOS.Userprog NachOS.Stub

/-- The addresses of `size` bytes. -/
def addresses (start size : BitVec 32) : Set (BitVec 32) := { a | (a - start).toNat < size.toNat }

namespace Scnhdr

def range (s : Scnhdr) : Set (BitVec 32) := addresses s.paddr s.size

/-- A section with uninitialized data, and with some of it. -/
def isBss (s : Scnhdr) : Bool := decide (s.kind = some .uninitData) && decide (s.size ≠ 0)

theorem isBss_iff {s : Scnhdr} : s.isBss = true ↔ s.kind = some .uninitData ∧ s.size ≠ 0 := by
  simp [isBss]

/-- The section begins where another ends. -/
def Follows (s last : Scnhdr) : Prop := s.paddr = last.paddr + last.size

end Scnhdr

def bssOf (sections : List Scnhdr) : List Scnhdr := sections.filter Scnhdr.isBss

section Loop

variable {fdIn : Nat} {fdOut : Option Nat} {p p' : Progress} {s : Scnhdr}
  {pre post sections : List Scnhdr}

theorem convertSections_append (pre rest : List Scnhdr) :
    convertSections fdIn fdOut p (pre ++ rest) =
      convertSections fdIn fdOut p pre >>= fun p' => convertSections fdIn fdOut p' rest := by
  induction pre generalizing p with
  | nil => rfl
  | cons s pre ih =>
    simp only [List.cons_append, convertSections, bind_assoc]
    cases convertSection fdIn fdOut p s with
    | error e => rfl
    | ok p' =>
      rw [Exec.ok_bind, Exec.ok_bind]
      exact ih

/-- Other sections leave the range alone. -/
theorem convertSection_other (other : s.isBss = false)
    (run : convertSection fdIn fdOut p s = .ok p') :
    p'.noffH.uninitData = p.noffH.uninitData := by
  unfold convertSection at run
  split at run
  next =>
    cases run
    rfl
  next some =>
    split at run
    next bss =>
      rw [← Bool.not_eq_true, Scnhdr.isBss_iff] at other
      exact absurd ⟨bss, some⟩ other
    next kind notBss _ =>
      unfold copySection at run
      obtain ⟨⟨buffer, host⟩, _, run⟩ := Exec.bind_eq_ok.mp run
      obtain ⟨host', _, run⟩ := Exec.bind_eq_ok.mp run
      cases run
      cases kind with
      | uninitData => exact (notBss rfl).elim
      | code | initData | readonlyData => rfl
    next => cases run

theorem convertSections_other (none : bssOf sections = [])
    (run : convertSections fdIn fdOut p sections = .ok p') :
    p'.noffH.uninitData = p.noffH.uninitData := by
  induction sections generalizing p with
  | nil =>
    cases run
    rfl
  | cons s rest ih =>
    have nowhere := List.filter_eq_nil_iff.mp none
    have here : s.isBss = false := Bool.not_eq_true _ ▸ nowhere s List.mem_cons_self
    have others : bssOf rest = [] := List.filter_eq_nil_iff.mpr fun other member =>
      nowhere other (List.mem_cons_of_mem _ member)
    unfold convertSections at run
    obtain ⟨p₁, first, run⟩ := Exec.bind_eq_ok.mp run
    rw [ih others run, convertSection_other here first]

/-- What the loop does with a section of uninitialized data. -/
theorem convertSection_bss (bss : s.isBss = true) :
    convertSection fdIn fdOut p s = noteBss p s := by
  obtain ⟨kind, some⟩ := Scnhdr.isBss_iff.mp bss
  unfold convertSection
  rw [if_neg some, kind]

/-- The first of them is noted down. -/
theorem noteBss_first (empty : p.noffH.uninitData.size = 0) (s : Scnhdr) :
    noteBss p s = .ok { p with noffH := { p.noffH with
      uninitData := { p.noffH.uninitData with virtualAddr := s.paddr, size := s.size } } } := by
  unfold noteBss
  simp only [empty, ne_eq, not_true_eq_false, if_false]

/-- A second one that follows the first is given up on. -/
theorem noteBss_contiguous (nonempty : p.noffH.uninitData.size ≠ 0)
    (contiguous : s.paddr = p.noffH.uninitData.virtualAddr + p.noffH.uninitData.size) :
    noteBss p s = .error .bssAndSbss := by
  unfold noteBss
  dsimp only
  rw [if_pos nonempty, if_pos contiguous]

theorem noteBss_gap (nonempty : p.noffH.uninitData.size ≠ 0)
    (gap : s.paddr ≠ p.noffH.uninitData.virtualAddr + p.noffH.uninitData.size) :
    ∃ p', noteBss p s = .ok p' := by
  unfold noteBss
  dsimp only
  rw [if_pos nonempty, if_neg gap]
  exact ⟨_, rfl⟩

/-- The list up to its first section of uninitialized data, and behind it. -/
theorem bssOf_cons {b : Scnhdr} {rest : List Scnhdr} (listed : bssOf sections = b :: rest) :
    ∃ before after, sections = before ++ b :: after ∧ bssOf before = [] ∧ b.isBss = true ∧
      bssOf after = rest := by
  obtain ⟨before, after, split, none, bss, others⟩ := List.filter_eq_cons_iff.mp listed
  exact ⟨before, after, split, List.filter_eq_nil_iff.mpr none, bss, others⟩

/-- The list up to the second one. -/
theorem bssOf_cons_cons {b c : Scnhdr} {rest : List Scnhdr}
    (listed : bssOf sections = b :: c :: rest) :
    ∃ before after, sections = before ++ c :: after ∧ bssOf before = [b] ∧ c.isBss = true := by
  obtain ⟨before, others, rfl, none, isBss, listed'⟩ := bssOf_cons listed
  obtain ⟨between, after, rfl, none', isBss', _⟩ := bssOf_cons listed'
  refine ⟨before ++ b :: between, after, by simp, ?_, isBss'⟩
  unfold bssOf at none none' ⊢
  rw [List.filter_append, List.filter_cons_of_pos isBss, none, none']
  rfl

/-- With one of them, its range is the range of the header. -/
theorem convertSections_one {b : Scnhdr} (empty : p.noffH.uninitData.size = 0)
    (one : bssOf sections = [b]) (run : convertSections fdIn fdOut p sections = .ok p') :
    p'.noffH.uninitData.virtualAddr = b.paddr ∧ p'.noffH.uninitData.size = b.size := by
  obtain ⟨before, after, rfl, none, bss, others⟩ := bssOf_cons one
  rw [convertSections_append] at run
  obtain ⟨p₁, first, run⟩ := Exec.bind_eq_ok.mp run
  have still : p₁.noffH.uninitData.size = 0 := by
    rw [convertSections_other none first]
    exact empty
  unfold convertSections at run
  rw [convertSection_bss bss, noteBss_first still, Exec.ok_bind] at run
  rw [convertSections_other others run]
  exact ⟨rfl, rfl⟩

/-- The raw data of a section can be copied, which takes the host from `h` to `h'`. -/
def Copies (fdIn : Nat) (fdOut : Option Nat) (h h' : Host) (s : Scnhdr) : Prop :=
  ∃ buffer h₁, Read (h.lseek fdIn s.scnptr.toInt .set).2 fdIn s.size.toInt = .ok (buffer, h₁) ∧
    Write h₁ fdOut (bufferOf buffer) s.size.toInt = .ok h'

/-- Nothing in these sections stops the program but uninitialized data: the others are empty,
or have a known name and raw data that can be copied. -/
def Passes (fdIn : Nat) (fdOut : Option Nat) : Host → List Scnhdr → Prop
  | _, [] => True
  | h, s :: rest =>
    if s.size = 0 ∨ s.kind = some .uninitData then Passes fdIn fdOut h rest
    else s.kind ≠ none ∧ ∃ h', Copies fdIn fdOut h h' s ∧ Passes fdIn fdOut h' rest

/-- What the loop does with a section that is to be copied. -/
theorem convertSection_copies (copied : ¬(s.size = 0 ∨ s.kind = some .uninitData)) (h' : Host) :
    (∃ p', convertSection fdIn fdOut p s = .ok p' ∧ p'.host = h') ↔
      s.kind ≠ none ∧ Copies fdIn fdOut p.host h' s := by
  obtain ⟨some, notBss⟩ := not_or.mp copied
  unfold convertSection Copies
  rw [if_neg some]
  split
  next bss => exact absurd bss notBss
  next kind _ known =>
    unfold copySection
    constructor
    · rintro ⟨p', run, rfl⟩
      obtain ⟨⟨buffer, h₁⟩, read, run⟩ := Exec.bind_eq_ok.mp run
      obtain ⟨h₂, written, run⟩ := Exec.bind_eq_ok.mp run
      cases run
      exact ⟨by simp [known], buffer, h₁, read, written⟩
    · rintro ⟨_, buffer, h₁, read, written⟩
      simp only [read, Exec.ok_bind, written]
      exact ⟨_, rfl, rfl⟩
  next unknown =>
    constructor
    · rintro ⟨p', run, -⟩
      cases run
    · intro known
      exact absurd unknown known.1

theorem bssOf_skip (other : s.isBss = false) : bssOf (s :: sections) = bssOf sections :=
  List.filter_cons_of_neg (by simp [other])

/-- With one section of uninitialized data at most, nothing else decides whether the loop
comes to its end. -/
theorem convertSections_iff_passes
    (atMost : bssOf sections = [] ∨ p.noffH.uninitData.size = 0 ∧ (bssOf sections).length ≤ 1) :
    (∃ p', convertSections fdIn fdOut p sections = .ok p') ↔
      Passes fdIn fdOut p.host sections := by
  induction sections generalizing p with
  | nil => exact iff_of_true ⟨p, rfl⟩ trivial
  | cons s rest ih =>
    unfold convertSections Passes
    by_cases empty : s.size = 0
    · have other : s.isBss = false := by simp [Scnhdr.isBss, empty]
      have stays : convertSection fdIn fdOut p s = .ok p := if_pos empty
      rw [bssOf_skip other] at atMost
      rw [if_pos (.inl empty), stays]
      exact ih atMost
    by_cases kind : s.kind = some .uninitData
    · have bss : s.isBss = true := Scnhdr.isBss_iff.mpr ⟨kind, empty⟩
      have listed : bssOf (s :: rest) = s :: bssOf rest := List.filter_cons_of_pos bss
      rw [listed] at atMost
      -- This is the first of them, and no other may follow.
      rcases atMost with none | ⟨first, one⟩
      · cases none
      · have last : bssOf rest = [] := by
          rw [List.length_cons] at one
          exact List.length_eq_zero_iff.mp (by omega)
        rw [if_pos (.inr kind), convertSection_bss bss, noteBss_first first, Exec.ok_bind]
        exact ih (.inl last)
    · have copied : ¬(s.size = 0 ∨ s.kind = some .uninitData) := not_or.mpr ⟨empty, kind⟩
      have other : s.isBss = false := by simp [Scnhdr.isBss, kind]
      rw [bssOf_skip other] at atMost
      rw [if_neg copied]
      constructor
      · rintro ⟨p', run⟩
        obtain ⟨p₁, first, run⟩ := Exec.bind_eq_ok.mp run
        obtain ⟨known, copies⟩ := (convertSection_copies copied p₁.host).mp ⟨p₁, first, rfl⟩
        rw [← convertSection_other other first] at atMost
        exact ⟨known, p₁.host, copies, (ih atMost).mp ⟨p', run⟩⟩
      · rintro ⟨known, h', copies, passes⟩
        obtain ⟨p₁, first, rfl⟩ := (convertSection_copies copied h').mpr ⟨known, copies⟩
        rw [← convertSection_other other first] at atMost
        obtain ⟨p', run⟩ := (ih atMost).mpr passes
        exact ⟨p', Exec.bind_eq_ok.mpr ⟨p₁, first, run⟩⟩

end Loop

section Law

variable {fdIn : Nat} {fdOut : Option Nat} {p p' : Progress} {sections : List Scnhdr}

/-- What the loop is to do with uninitialized data. -/
structure Lawful (fdIn : Nat) (fdOut : Option Nat) (p : Progress) (sections : List Scnhdr) :
    Prop where
  /-- A run that succeeds has the union of the ranges. -/
  union : ∀ p', convertSections fdIn fdOut p sections = .ok p' → ∀ a,
    a ∈ addresses p'.noffH.uninitData.virtualAddr p'.noffH.uninitData.size ↔
      ∃ s ∈ sections, s.kind = some .uninitData ∧ a ∈ s.range
  /-- A section that follows the one before is merged with it. -/
  merges : ∀ pre s post p' last, sections = pre ++ s :: post →
    convertSections fdIn fdOut p pre = .ok p' → s.isBss = true →
    (bssOf pre).getLast? = some last → s.Follows last →
    ∃ p'', convertSection fdIn fdOut p' s = .ok p'' ∧
      p''.noffH.uninitData.size = p'.noffH.uninitData.size + s.size
  /-- One that does not is an error. -/
  refuses : ∀ pre s post p' last, sections = pre ++ s :: post →
    convertSections fdIn fdOut p pre = .ok p' → s.isBss = true →
    (bssOf pre).getLast? = some last → ¬s.Follows last →
    ∃ e, convertSection fdIn fdOut p' s = .error e

/-- There is a second section of uninitialized data that is not empty, and the program can
work through the sections before it. -/
def HasSecond (fdIn : Nat) (fdOut : Option Nat) (h : Host) (sections : List Scnhdr) : Prop :=
  ∃ pre s post b, sections = pre ++ s :: post ∧ bssOf pre = [b] ∧ s.isBss = true ∧
    Passes fdIn fdOut h pre

/-- A run that comes to such a section after there was one already. -/
theorem hasSecond_of_run {pre post : List Scnhdr} {s : Scnhdr}
    (empty : p.noffH.uninitData.size = 0) (run : convertSections fdIn fdOut p pre = .ok p')
    (bss : s.isBss = true) (earlier : bssOf pre ≠ []) :
    HasSecond fdIn fdOut p.host (pre ++ s :: post) := by
  have passes : ∀ pre' p', convertSections fdIn fdOut p pre' = .ok p' →
      (bssOf pre').length ≤ 1 → Passes fdIn fdOut p.host pre' := fun pre' p' run one =>
    (convertSections_iff_passes (.inr ⟨empty, one⟩)).mp ⟨p', run⟩
  obtain ⟨b, rest, listed⟩ := List.exists_cons_of_ne_nil earlier
  cases rest with
  | nil => exact ⟨pre, s, post, b, rfl, listed, bss, passes pre p' run (by simp [listed])⟩
  | cons c rest =>
    -- The second one is in the part that was run already.
    obtain ⟨before, after, rfl, one, isBss⟩ := bssOf_cons_cons listed
    rw [convertSections_append] at run
    obtain ⟨p₁, run, _⟩ := Exec.bind_eq_ok.mp run
    exact ⟨before, c, after ++ s :: post, b, by simp, one, isBss,
      passes before p₁ run (by simp [one])⟩

/-- The ranges of empty sections do not matter. -/
theorem mem_ranges_iff (sections : List Scnhdr) (a : BitVec 32) :
    (∃ s ∈ sections, s.kind = some .uninitData ∧ a ∈ s.range) ↔
      ∃ s ∈ bssOf sections, a ∈ s.range := by
  constructor
  · rintro ⟨s, member, kind, inside⟩
    have some : s.size ≠ 0 := by
      intro empty
      unfold Scnhdr.range addresses at inside
      rw [empty] at inside
      exact Nat.not_lt_zero _ inside
    exact ⟨s, List.mem_filter.mpr ⟨member, Scnhdr.isBss_iff.mpr ⟨kind, some⟩⟩, inside⟩
  · rintro ⟨s, member, inside⟩
    obtain ⟨member, bss⟩ := List.mem_filter.mp member
    exact ⟨s, member, (Scnhdr.isBss_iff.mp bss).1, inside⟩

/-- The state in which the loop starts. -/
def startProgress (host : Host) (garbage : NoffHeader) : Progress :=
  ⟨host, startHeader garbage, BitVec.ofNat 32 NoffHeaderSize⟩

theorem union_of_one (empty : p.noffH.uninitData.size = 0)
    (once : ¬HasSecond fdIn fdOut p.host sections)
    (run : convertSections fdIn fdOut p sections = .ok p') (a : BitVec 32) :
    a ∈ addresses p'.noffH.uninitData.virtualAddr p'.noffH.uninitData.size ↔
      ∃ s ∈ sections, s.kind = some .uninitData ∧ a ∈ s.range := by
  rw [mem_ranges_iff]
  cases listed : bssOf sections with
  | nil =>
    have unused : p'.noffH.uninitData.size = 0 := by
      rw [convertSections_other listed run]
      exact empty
    refine iff_of_false ?_ ?_
    · unfold addresses
      rw [unused]
      exact Nat.not_lt_zero _
    · rintro ⟨s, member, _⟩
      cases member
  | cons b rest =>
    cases rest with
    | cons c rest =>
      obtain ⟨before, after, rfl, one, isBss⟩ := bssOf_cons_cons listed
      rw [convertSections_append] at run
      obtain ⟨p₁, run, _⟩ := Exec.bind_eq_ok.mp run
      exact absurd (hasSecond_of_run empty run isBss (by simp [one])) once
    | nil =>
      obtain ⟨start, size⟩ := convertSections_one empty listed run
      rw [start, size]
      simp only [List.mem_singleton, exists_eq_left]
      rfl

/-- At the second of them the test is the wrong way round. -/
theorem second_unlawful (empty : p.noffH.uninitData.size = 0)
    (second : HasSecond fdIn fdOut p.host sections) : ¬Lawful fdIn fdOut p sections := by
  obtain ⟨pre, s, post, b, rfl, one, bss, passes⟩ := second
  have atMost : (bssOf pre).length ≤ 1 := by simp [one]
  obtain ⟨p', run⟩ := (convertSections_iff_passes (.inr ⟨empty, atMost⟩)).mpr passes
  intro lawful
  obtain ⟨start, size⟩ := convertSections_one empty one run
  have nonempty : p'.noffH.uninitData.size ≠ 0 := by
    have member : b ∈ bssOf pre := by
      rw [one]
      exact List.mem_singleton.mpr rfl
    rw [size]
    exact (Scnhdr.isBss_iff.mp (List.mem_filter.mp member).2).2
  have last : (bssOf pre).getLast? = some b := by
    rw [one]
    rfl
  by_cases follows : s.Follows b
  · obtain ⟨p'', merged, _⟩ := lawful.merges pre s post p' b rfl run bss last follows
    have contiguous : s.paddr = p'.noffH.uninitData.virtualAddr + p'.noffH.uninitData.size := by
      rw [start, size]
      exact follows
    rw [convertSection_bss bss, noteBss_contiguous nonempty contiguous] at merged
    cases merged
  · obtain ⟨e, refused⟩ := lawful.refuses pre s post p' b rfl run bss last follows
    have gap : s.paddr ≠ p'.noffH.uninitData.virtualAddr + p'.noffH.uninitData.size := by
      rw [start, size]
      exact follows
    obtain ⟨p'', taken⟩ := noteBss_gap nonempty gap
    rw [convertSection_bss bss, taken] at refused
    cases refused

/-- Every list of sections: the loop treats uninitialized data as it should exactly if it
comes to no more than one section of it that is not empty. -/
theorem bss_lawful_iff (fdIn : Nat) (fdOut : Option Nat) (host : Host) (garbage : NoffHeader)
    (sections : List Scnhdr) :
    Lawful fdIn fdOut (startProgress host garbage) sections ↔
      ¬HasSecond fdIn fdOut host sections := by
  have empty : (startProgress host garbage).noffH.uninitData.size = 0 := rfl
  constructor
  · intro lawful second
    exact second_unlawful empty second lawful
  · intro once
    have never : ∀ pre s post p' last, sections = pre ++ s :: post →
        convertSections fdIn fdOut (startProgress host garbage) pre = .ok p' → s.isBss = true →
        (bssOf pre).getLast? = some last → False := by
      rintro pre s post p' last rfl run bss listed
      refine once (hasSecond_of_run empty run bss ?_)
      intro nothing
      rw [nothing] at listed
      cases listed
    exact {
      union := fun p' run a => union_of_one empty once run a
      merges := fun pre s post p' last split run bss listed _ =>
        (never pre s post p' last split run bss listed).elim
      refuses := fun pre s post p' last split run bss listed _ =>
        (never pre s post p' last split run bss listed).elim }

/-- A section `.bss`. -/
def bssSection (paddr size : BitVec 32) : Scnhdr where
  name := [0x2e, 0x62, 0x73, 0x73, 0, 0, 0, 0]
  paddr := paddr
  size := size
  scnptr := 0

def zeroHeader : NoffHeader := ⟨0, ⟨0, 0, 0⟩, ⟨0, 0, 0⟩, ⟨0, 0, 0⟩, ⟨0, 0, 0⟩⟩

def noFiles : Host := ⟨fun _ => none, fun _ => [], fun _ => none, 0⟩

/-- Two contiguous sections are refused, and two with a gap are taken for one. -/
theorem bss_test_inverted :
    (∃ e, convertSections 3 (some 4) (startProgress noFiles zeroHeader)
      [bssSection 0x1000 16, bssSection 0x1010 16] = .error e) ∧
    (∃ p', convertSections 3 (some 4) (startProgress noFiles zeroHeader)
        [bssSection 0x1000 16, bssSection 0x2000 16] = .ok p' ∧
      p'.noffH.uninitData = ⟨0x1000, 0, 32⟩) ∧
    ¬Lawful 3 (some 4) (startProgress noFiles zeroHeader)
      [bssSection 0x1000 16, bssSection 0x1010 16] ∧
    ¬Lawful 3 (some 4) (startProgress noFiles zeroHeader)
      [bssSection 0x1000 16, bssSection 0x2000 16] := by
  have second (paddr : BitVec 32) : HasSecond 3 (some 4) noFiles
      [bssSection 0x1000 16, bssSection paddr 16] := by
    refine ⟨[bssSection 0x1000 16], bssSection paddr 16, [], bssSection 0x1000 16, rfl, rfl, rfl,
      ?_⟩
    unfold Passes
    rw [if_pos (.inr rfl)]
    trivial
  exact ⟨⟨_, rfl⟩, ⟨_, rfl, rfl⟩, second_unlawful rfl (second 0x1010),
    second_unlawful rfl (second 0x2000)⟩

end Law

end NachOS.Coff2noff
