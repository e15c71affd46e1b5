import Mathlib.Data.List.Basic

/-!
# Components and what they are for

A component has operations that answer: `step` is an operation as the code computes it,
`none` if the call does not return, `spec` is the operation of the abstract object that
the component stands for, and `legal` says what a caller promises before a call. A
relation between states of the two levels that every legal call keeps, with the answer
of the abstract object, is kept by every run of legal calls, and no call of it fails.

The relation may depend on how many calls are still to come, so that a bound on the size
of the component that grows with each call can be part of it.
-/
namespace NachOS.Lib

structure Component (ω σ τ ρ : Type*) where
  step : ω → σ → Option (ρ × σ)
  spec : ω → τ → ρ × τ
  legal : ω → σ → τ → Prop

namespace Component

variable {ω σ τ ρ : Type*} (C : Component ω σ τ ρ)

/-- The answers of the calls, in order, and the state after them. -/
def run : List ω → σ → Option (List ρ × σ)
  | [], s => some ([], s)
  | op :: ops, s =>
    (C.step op s).bind fun first => (run ops first.2).map fun rest => (first.1 :: rest.1, rest.2)

def specRun : List ω → τ → List ρ × τ
  | [], t => ([], t)
  | op :: ops, t =>
    ((C.spec op t).1 :: (specRun ops (C.spec op t).2).1, (specRun ops (C.spec op t).2).2)

/-- Every call of the run is made as its caller has promised. -/
def Legal : List ω → σ → τ → Prop
  | [], _, _ => True
  | op :: ops, s, t =>
    C.legal op s t ∧ ∀ answer s', C.step op s = some (answer, s') → Legal ops s' (C.spec op t).2

variable {C}

theorem Legal.cons {op : ω} {ops : List ω} {s s' : σ} {t : τ} {answer : ρ}
    (allowed : C.legal op s t) (here : C.step op s = some (answer, s'))
    (later : C.Legal ops s' (C.spec op t).2) : C.Legal (op :: ops) s t := by
  refine ⟨allowed, ?_⟩
  intro answer' after again
  cases here.symm.trans again
  exact later

/-- Promises that do not look at the states. -/
theorem Legal.of_forall {ops : List ω} (allowed : ∀ op ∈ ops, ∀ s t, C.legal op s t) (s : σ)
    (t : τ) : C.Legal ops s t := by
  induction ops generalizing s t with
  | nil => trivial
  | cons op ops ih =>
    refine ⟨allowed op List.mem_cons_self s t, ?_⟩
    intro _ s' _
    exact ih (fun other member => allowed other (List.mem_cons_of_mem op member)) s' _

theorem refines {R : Nat → σ → τ → Prop}
    (simulates : ∀ n op s t, R (n + 1) s t → C.legal op s t →
      ∃ s', C.step op s = some ((C.spec op t).1, s') ∧ R n s' (C.spec op t).2)
    (ops : List ω) {s : σ} {t : τ} (related : R ops.length s t) (legal : C.Legal ops s t) :
    ∃ s', C.run ops s = some ((C.specRun ops t).1, s') ∧ R 0 s' (C.specRun ops t).2 := by
  induction ops generalizing s t with
  | nil => exact ⟨s, rfl, related⟩
  | cons op ops ih =>
    obtain ⟨allowed, later⟩ := legal
    obtain ⟨mid, here, related⟩ := simulates ops.length op s t related allowed
    obtain ⟨s', rest, related⟩ := ih related (later _ _ here)
    refine ⟨s', ?_, related⟩
    simp only [run, here, Option.bind_some, rest, Option.map_some, specRun]

end Component

end NachOS.Lib
