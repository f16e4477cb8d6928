import Mathlib

-- Two tables which are kept in different places, and which agree on a part of their entries.

namespace Agreement

variable {α : Type*} {A s t : Set α}

def AgreeOn (A s t : Set α) : Prop :=
  ∀ x ∈ A, x ∈ s ↔ x ∈ t

-- The same change of both tables.

theorem AgreeOn.union (h : AgreeOn A s t) (U : Set α) : AgreeOn A (s ∪ U) (t ∪ U) :=
  fun x hx => or_congr (h x hx) Iff.rfl

theorem AgreeOn.diff (h : AgreeOn A s t) (U : Set α) : AgreeOn A (s \ U) (t \ U) :=
  fun x hx => and_congr (h x hx) Iff.rfl

end Agreement
