import Mathlib.Data.List.Basic

/-!
# Services: components whose specification leaves a choice

As a component, but the abstract object does not fix what an operation answers or leaves
behind: `spec op answer t t'` says that it may answer `answer` and go from `t` to `t'`. What a
caller promises is about the abstract object alone, so it has to keep its promise whatever the
service chose before.

A relation between the states of the two levels that every legal call keeps is kept by every
run of legal calls: no call of it fails, and what the calls answer is allowed.
-/
namespace NachOS.Lib

structure Service (ω σ τ ρ : Type*) where
  step : ω → σ → Option (ρ × σ)
  spec : ω → ρ → τ → τ → Prop
  legal : ω → τ → Prop

namespace Service

variable {ω σ τ ρ : Type*} (S : Service ω σ τ ρ)

/-- The answers of the calls, in order, and the state after them. -/
def run : List ω → σ → Option (List ρ × σ)
  | [], s => some ([], s)
  | op :: ops, s =>
    (S.step op s).bind fun first => (run ops first.2).map fun rest => (first.1 :: rest.1, rest.2)

/-- The answers are allowed for the calls, and so is the state after them. -/
inductive Allows : List ω → List ρ → τ → τ → Prop
  | nil (t : τ) : Allows [] [] t t
  | cons {op : ω} {ops : List ω} {answer : ρ} {answers : List ρ} {t mid t' : τ}
      (here : S.spec op answer t mid) (later : Allows ops answers mid t') :
      Allows (op :: ops) (answer :: answers) t t'

/-- Every call is made as its caller has promised, whatever the calls before it did. -/
def Legal : List ω → τ → Prop
  | [], _ => True
  | op :: ops, t => S.legal op t ∧ ∀ answer t', S.spec op answer t t' → Legal ops t'

variable {S}

theorem simulates_run {R : σ → τ → Prop}
    (simulates : ∀ op s t, R s t → S.legal op t →
      ∃ answer s' t', S.step op s = some (answer, s') ∧ S.spec op answer t t' ∧ R s' t')
    (ops : List ω) {s : σ} {t : τ} (related : R s t) (legal : S.Legal ops t) :
    ∃ answers s' t', S.run ops s = some (answers, s') ∧ S.Allows ops answers t t' ∧ R s' t' := by
  induction ops generalizing s t with
  | nil => exact ⟨[], s, t, rfl, .nil t, related⟩
  | cons op ops ih =>
    obtain ⟨promised, later⟩ := legal
    obtain ⟨answer, mid, t₁, here, allowed, related⟩ := simulates op s t related promised
    obtain ⟨answers, s', t', rest, allows, related⟩ := ih related (later answer t₁ allowed)
    refine ⟨answer :: answers, s', t', ?_, .cons allowed allows, related⟩
    simp only [run, here, Option.bind_some, rest, Option.map_some]

end Service

end NachOS.Lib
