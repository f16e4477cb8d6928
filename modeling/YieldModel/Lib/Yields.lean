import Mathlib
import YieldModel.Lib.Prog

-- Programs whose result does not depend on the state, as long as an invariant holds. Caches are of
-- this kind: what they contain is what would be fetched otherwise.

namespace Prog

variable {ε σ α β : Type}

-- From every state which satisfies `I`, `x` has the result `r`, and `I` holds again.
def Yields (I : σ → Prop) (x : Prog ε σ α) (r : Except ε α) : Prop :=
  ∀ s, I s → (x.exec s).1 = r.mapError .error ∧ I (x.exec s).2

namespace Yields

variable {I : σ → Prop} {x y : Prog ε σ α} {f : α → Prog ε σ β} {g : α → Except ε β}
variable {r : Except ε α} {s : σ}

theorem pure (a : α) : Yields I (pure a : Prog ε σ α) (.ok a) :=
  fun _ hs => ⟨rfl, hs⟩

theorem error (e : ε) : Yields I (error e : Prog ε σ α) (.error e) :=
  fun _ hs => ⟨rfl, hs⟩

theorem assert {c : Prop} [Decidable c] {m : String} (h : c) :
    Yields I (assert c m : Prog ε σ Unit) (.ok ()) := by
  rw [Prog.assert, if_pos h]
  exact pure ()

theorem bind (hx : Yields I x r) (hf : ∀ a, r = .ok a → Yields I (f a) (g a)) :
    Yields I (x >>= f) (r >>= g) := by
  intro s hs
  have h := hx s hs
  rw [exec_bind]
  cases hr : x.exec s with | mk r' s' =>
  rw [hr] at h
  cases r
  case ok a =>
    cases h.left
    exact hf a rfl s' h.right
  case error e =>
    cases h.left
    exact ⟨rfl, h.right⟩

theorem bind_ok {a : α} {r : Except ε β} (hx : Yields I x (.ok a)) (hf : Yields I (f a) r) :
    Yields I (x >>= f) r :=
  bind (g := fun _ => r) hx fun _ h => Except.ok.inj h ▸ hf

-- A state is read, but what is done next is the same for all of them.
theorem get_bind {f : σ → Prog ε σ α} (h : ∀ s, I s → f s = y) (hy : Yields I y r) :
    Yields I (get >>= f) r := by
  intro s hs
  rw [exec_bind]
  change ((f s).exec s).1 = _ ∧ I ((f s).exec s).2
  rw [h s hs]
  exact hy s hs

theorem attempt (hx : Yields I x r) : Yields I (attempt x) (.ok r) := by
  intro s hs
  have h := hx s hs
  rw [exec_attempt]
  cases hr : x.exec s with | mk r' s' =>
  rw [hr] at h
  cases r
  case ok a =>
    cases h.left
    exact ⟨rfl, h.right⟩
  case error e =>
    cases h.left
    exact ⟨rfl, h.right⟩

theorem collect {g : α → β} {l : List α} (h : ∀ a ∈ l, Yields I (f a) (.ok (g a))) :
    Yields I (collect f l) (.ok (l.map g)) := by
  induction l
  case nil => exact pure []
  case cons a l ih =>
    have hl := ih fun a' ha => h a' (List.mem_cons_of_mem _ ha)
    exact bind_ok (h a List.mem_cons_self) (bind_ok hl (pure _))

theorem exec_eq {a : α} (h : Yields I x (.ok a)) (hs : I s) :
    ∃ s', x.exec s = (.ok a, s') ∧ I s' :=
  ⟨(x.exec s).2, Prod.ext (h s hs).left rfl, (h s hs).right⟩

end Yields

end Prog
