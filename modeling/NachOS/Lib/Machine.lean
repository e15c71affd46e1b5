import Mathlib.Data.Fintype.Card
import Mathlib.Data.Finset.Card
import Mathlib.Logic.Function.Basic

/-!
# Guarded machines: runs, invariants, projections

A machine is an executable guarded step: `next e s` is `some s'` when event `e`
can happen in `s`, and `none` when its guard or an assertion of the modelled
code fails. All nondeterminism (which thread moves, what a device answers) is in
the event, so a concrete run is replayed by evaluation and an interleaving is a
list of events.

`ReachableUnder ok` keeps only the runs all of whose events meet `ok`; plain
reachability is the case where every event does. `Projection` is the composition
rule used for stacked objects: one step of the outer machine is at most one step
of the inner one, so invariants of the inner machine hold outside.

The last section counts the threads in a given situation, the form in which
wakeup arguments are stated.
-/
namespace NachOS.Lib

structure Machine (σ ε : Type*) where
  init : σ → Prop
  next : ε → σ → Option σ

namespace Machine

variable {σ ε τ δ : Type*} (M : Machine σ ε)

/-- Replay a list of events; `none` if one of them cannot happen. -/
def run : List ε → σ → Option σ
  | [], s => some s
  | e :: es, s => (M.next e s).bind (run es)

/-- States reached from an initial one by events that all meet `ok` in the
state in which they happen. -/
inductive ReachableUnder (ok : ε → σ → Prop) : σ → Prop
  | init {s : σ} (h : M.init s) : ReachableUnder ok s
  | step {s s' : σ} {e : ε} (before : ReachableUnder ok s) (meets : ok e s)
      (h : M.next e s = some s') : ReachableUnder ok s'

def Reachable : σ → Prop := M.ReachableUnder (fun _ _ => True)

variable {M}

theorem ReachableUnder.invariant {ok : ε → σ → Prop} {P : σ → Prop}
    (initial : ∀ s, M.init s → P s)
    (preserved : ∀ e s s', P s → ok e s → M.next e s = some s' → P s')
    {s : σ} (h : M.ReachableUnder ok s) : P s := by
  induction h with
  | init h => exact initial _ h
  | step _ meets h ih => exact preserved _ _ _ ih meets h

theorem ReachableUnder.mono {ok ok' : ε → σ → Prop} (weaker : ∀ e s, ok e s → ok' e s) {s : σ}
    (h : M.ReachableUnder ok s) : M.ReachableUnder ok' s := by
  induction h with
  | init h => exact .init h
  | step _ meets h ih => exact .step ih (weaker _ _ meets) h

theorem Reachable.init {s : σ} (h : M.init s) : M.Reachable s :=
  ReachableUnder.init h

theorem Reachable.invariant {P : σ → Prop} (initial : ∀ s, M.init s → P s)
    (preserved : ∀ e s s', P s → M.next e s = some s' → P s')
    {s : σ} (h : M.Reachable s) : P s :=
  ReachableUnder.invariant initial (fun e s s' hs _ hn => preserved e s s' hs hn) h

theorem run_one {s s' : σ} {e : ε} (h : M.next e s = some s') : M.run [e] s = some s' :=
  Option.bind_eq_some_iff.mpr ⟨s', h, rfl⟩

/-- A run of events that meet `ok` in every state. -/
theorem ReachableUnder.run {ok : ε → σ → Prop} {s s' : σ} (before : M.ReachableUnder ok s)
    (es : List ε) (meets : ∀ e ∈ es, ∀ s, ok e s) (h : M.run es s = some s') :
    M.ReachableUnder ok s' := by
  induction es generalizing s with
  | nil =>
    cases h
    exact before
  | cons e es ih =>
    obtain ⟨mid, hmid, hrest⟩ := Option.bind_eq_some_iff.mp h
    have reached := before.step (meets e List.mem_cons_self s) hmid
    exact ih reached (fun e' he' => meets e' (List.mem_cons_of_mem _ he')) hrest

theorem Reachable.run {s s' : σ} (before : M.Reachable s) (es : List ε)
    (h : M.run es s = some s') : M.Reachable s' :=
  ReachableUnder.run before es (fun _ _ _ => trivial) h

variable (M) in
/-- Replay a list of events; `none` if one of them cannot happen or does not meet `ok`. -/
def runUnder (ok : ε → σ → Prop) [∀ e s, Decidable (ok e s)] : List ε → σ → Option σ
  | [], s => some s
  | e :: es, s => if ok e s then (M.next e s).bind (runUnder ok es) else none

theorem ReachableUnder.runUnder {ok : ε → σ → Prop} [∀ e s, Decidable (ok e s)] {s s' : σ}
    (before : M.ReachableUnder ok s) (es : List ε) (h : M.runUnder ok es s = some s') :
    M.ReachableUnder ok s' := by
  induction es generalizing s with
  | nil =>
    cases h
    exact before
  | cons e es ih =>
    obtain ⟨meets, h⟩ := Option.ite_none_right_eq_some.mp h
    obtain ⟨mid, hmid, hrest⟩ := Option.bind_eq_some_iff.mp h
    exact ih (before.step meets hmid) hrest

/-- A machine that does event by event what `N` does to the part that `abs` keeps. -/
theorem run_map {N : Machine τ ε} {abs : σ → τ} {P : σ → Prop}
    (refines : ∀ e s, P s → (M.next e s).map abs = N.next e (abs s))
    (kept : ∀ e s s', P s → M.next e s = some s' → P s') {s : σ} (start : P s) (es : List ε) :
    (M.run es s).map abs = N.run es (abs s) := by
  induction es generalizing s with
  | nil => rfl
  | cons e es ih =>
    change ((M.next e s).bind (M.run es)).map abs = (N.next e (abs s)).bind (N.run es)
    rw [← refines e s start]
    cases step : M.next e s with
    | none => rfl
    | some s' => exact ih (kept e s s' start step)

/-- One step of `M` is at most one step of `N` on the part of the state that `abs` keeps. -/
structure Projection (M : Machine σ ε) (N : Machine τ δ) where
  abs : σ → τ
  init : ∀ s, M.init s → N.init (abs s)
  step : ∀ e s s', M.next e s = some s' → abs s' = abs s ∨ ∃ d, N.next d (abs s) = some (abs s')

/-- Where `M` never leaves room for an event that breaks `ok`, its part runs under `ok`. -/
theorem Projection.reachableUnder {N : Machine τ δ} (p : Projection M N) {ok : δ → τ → Prop}
    (meets : ∀ s, M.Reachable s → ∀ d, ok d (p.abs s)) {s : σ} (h : M.Reachable s) :
    N.ReachableUnder ok (p.abs s) := by
  induction h with
  | init h => exact .init (p.init _ h)
  | step before _ h ih =>
    rcases p.step _ _ _ h with stays | ⟨d, moves⟩
    · rw [stays]
      exact ih
    · exact ih.step (meets _ before d) moves

theorem Projection.reachable {N : Machine τ δ} (p : Projection M N) {s : σ}
    (h : M.Reachable s) : N.Reachable (p.abs s) :=
  p.reachableUnder (fun _ _ _ => trivial) h

end Machine

section Count

variable {α : Type*} [Fintype α]

/-- How many elements (threads, in the uses below) satisfy `p`. -/
def count (p : α → Prop) [DecidablePred p] : Nat :=
  (Finset.univ.filter p).card

variable {p q : α → Prop} [DecidablePred p] [DecidablePred q]

theorem count_congr (h : ∀ a, q a ↔ p a) : count q = count p := by
  unfold count
  congr 1
  ext a
  simp [h a]

theorem count_gain (a : α) (without : ¬ p a) (gained : q a)
    (others : ∀ b, b ≠ a → (q b ↔ p b)) : count q = count p + 1 := by
  classical
  have split : Finset.univ.filter q = insert a (Finset.univ.filter p) := by
    ext b
    by_cases hb : b = a
    · simp [hb, gained]
    · simp [hb, others b hb]
  unfold count
  rw [split, Finset.card_insert_of_notMem (by simp [without])]

theorem count_loss (a : α) (had : p a) (lost : ¬ q a)
    (others : ∀ b, b ≠ a → (q b ↔ p b)) : count p = count q + 1 :=
  count_gain a lost had (fun b hb => (others b hb).symm)

theorem count_le (h : ∀ a, p a → q a) : count p ≤ count q :=
  Finset.card_le_card fun a ha => by
    simp only [Finset.mem_filter, Finset.mem_univ, true_and] at ha ⊢
    exact h a ha

/-- All but one of those that satisfy `p` satisfy `q`. -/
theorem count_le_succ (a : α) (others : ∀ b, b ≠ a → p b → q b) :
    count p ≤ count q + 1 := by
  classical
  have cover : Finset.univ.filter p ⊆ insert a (Finset.univ.filter q) := by
    intro b hb
    simp only [Finset.mem_filter, Finset.mem_univ, true_and] at hb
    by_cases h : b = a
    · simp [h]
    · simp [others b h hb]
  exact (Finset.card_le_card cover).trans (Finset.card_insert_le _ _)

theorem count_succ_le (a : α) (without : ¬ p a) (gained : q a)
    (others : ∀ b, b ≠ a → p b → q b) : count p + 1 ≤ count q := by
  classical
  rw [← count_gain (q := fun b => p b ∨ b = a) a without (.inr rfl) (fun b hb => by simp [hb])]
  refine count_le ?_
  rintro b (hb | rfl)
  · by_cases h : b = a
    · exact h ▸ gained
    · exact others b h hb
  · exact gained

/-- One element takes the place of another. -/
theorem count_le_swap (a b : α) (without : ¬ p b) (gained : q b)
    (others : ∀ c, c ≠ a → c ≠ b → p c → q c) : count p ≤ count q := by
  classical
  have lost : count p ≤ count (fun c => q c ∧ c ≠ b) + 1 :=
    count_le_succ a fun c hc hp => by
      have hcb : c ≠ b := fun e => without (e ▸ hp)
      exact ⟨others c hc hcb hp, hcb⟩
  have kept : count (fun c => q c ∧ c ≠ b) + 1 ≤ count q :=
    count_succ_le b (by simp) gained fun c _ hc => hc.1
  exact lost.trans kept

end Count

end NachOS.Lib
