import Mathlib.Data.List.Basic

/-!
# Runs — sequences of events of a partial machine, with a condition on every event

A condition on a run is a condition on each of its events in the state it happens in.  What every
admitted event keeps, every such run keeps.
-/

namespace Serval

universe u v

/-- A run of which every event is one that `allowed` admits, in the state it happens in. -/
inductive RunIn {σ : Type u} {ε : Type v} (step : σ → ε → Option σ) (allowed : σ → ε → Prop) :
    σ → List ε → σ → Prop
  | nil (s : σ) : RunIn step allowed s [] s
  | cons {s s₁ s₂ : σ} {e : ε} {es : List ε} (hallowed : allowed s e) (hstep : step s e = some s₁)
      (hrest : RunIn step allowed s₁ es s₂) : RunIn step allowed s (e :: es) s₂

/-- The state such a run ends in; `none` if an event is not admitted or not possible. -/
def runIn {σ : Type u} {ε : Type v} (step : σ → ε → Option σ) (allowed : σ → ε → Prop)
    [∀ s e, Decidable (allowed s e)] : σ → List ε → Option σ
  | s, [] => some s
  | s, e :: es => if allowed s e then (step s e).bind (fun s₁ => runIn step allowed s₁ es) else none

namespace RunIn

variable {σ : Type u} {ε : Type v} {step : σ → ε → Option σ} {allowed : σ → ε → Prop} {s s' : σ}
  {es : List ε}

/-- The rule for invariants of such runs. -/
theorem invariant {I : σ → Prop}
    (hkeep : ∀ {s e s'}, allowed s e → step s e = some s' → I s → I s')
    (hrun : RunIn step allowed s es s') (h : I s) : I s' := by
  induction hrun with
  | nil s => exact h
  | cons hallowed hstep _ ih => exact ih (hkeep hallowed hstep h)

theorem of_runIn [∀ s e, Decidable (allowed s e)] :
    ∀ (es : List ε) (s : σ), runIn step allowed s es = some s' → RunIn step allowed s es s' := by
  intro es
  induction es with
  | nil =>
      intro s h
      cases h
      exact .nil _
  | cons e es ih =>
      intro s h
      by_cases hallowed : allowed s e
      · rw [runIn, if_pos hallowed, Option.bind_eq_some_iff] at h
        rcases h with ⟨s₁, hstep, hrest⟩
        exact .cons hallowed hstep (ih s₁ hrest)
      · rw [runIn, if_neg hallowed] at h
        cases h

end RunIn

end Serval
