import Mathlib

-- Executions of a transition system which is given by its step relation.

namespace Execution

variable {σ : Type*} {step step' : σ → σ → Prop} {I J : σ → Prop} {R : σ → σ → Prop} {s s' : σ}

abbrev Steps (step : σ → σ → Prop) : σ → σ → Prop :=
  Relation.ReflTransGen step

def Preserves (step : σ → σ → Prop) (I : σ → Prop) : Prop :=
  ∀ ⦃s s'⦄, step s s' → I s → I s'

-- The induction over executions: what every step preserves, every execution preserves.
theorem Preserves.steps (h : Preserves step I) (e : Steps step s s') (hs : I s) : I s' := by
  induction e
  case refl         => exact hs
  case tail _ hs hi => exact h hs hi

-- An invariant may be used to establish what a step does, before it is lifted to executions.
theorem Preserves.relates [Std.Refl R] [IsTrans σ R]
    (h : Preserves step I) (hr : ∀ ⦃s s'⦄, I s → step s s' → R s s')
    (e : Steps step s s') (hs : I s) : R s s' := by
  induction e
  case refl           => exact refl _
  case tail e stp hi  => exact trans_of R hi (hr (h.steps e hs) stp)

end Execution
