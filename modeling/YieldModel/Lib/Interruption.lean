import YieldModel.Lib.Prog

open Execution

-- Programs which may be interrupted between any two of their effects. What an interrupted program
-- has done so far is not undone, and everything that it has not stored is lost.

-- A program runs until its budget of effects is used up. The log has the latest effect first.
structure Process (ι σ : Type) where
  state  : σ
  budget : ℕ
  log    : List ι

abbrev Interruptible (ι σ : Type) := Prog Unit (Process ι σ)

namespace Interruptible

variable {ι σ α β : Type}

def read : Interruptible ι σ σ :=
  return (← get).state

def perform (i : ι) (f : σ → σ) : Interruptible ι σ Unit := do
  let p ← get
  match p.budget with
  | 0     => Prog.error ()
  | n + 1 => set { state := f p.state, budget := n, log := i :: p.log : Process ι σ }

-- The process after a run which is interrupted when `budget` effects have been performed.
def run (x : Interruptible ι σ α) (budget : ℕ) (s : σ) : Process ι σ :=
  (x.exec ⟨s, budget, []⟩).2

variable {x : Interruptible ι σ α} {f : α → Interruptible ι σ β} {P : Process ι σ → Prop}
variable {E : Process ι σ → Prop} {i : ι} {g : σ → σ} {m n : ℕ}

theorem perform_triple {Q : Unit → Process ι σ → Prop}
    (h : ∀ s b l, P ⟨s, b + 1, l⟩ → Q () ⟨g s, b, i :: l⟩) (he : ∀ p, P p → E p) :
    Prog.Triple P (perform i g) Q E := by
  intro p hp
  cases p with | mk s b l =>
  cases b
  case zero   => exact he _ hp
  case succ b => exact h s b l hp

theorem read_triple {Q : σ → Process ι σ → Prop} (h : ∀ p, P p → Q p.state p) :
    Prog.Triple P (read : Interruptible ι σ σ) Q E :=
  h

theorem run_of_triple {s : σ} (h : Prog.Triple P x (fun _ => E) E) (hp : P ⟨s, n, []⟩) :
    E (run x n s) :=
  h.exec hp

-- With a budget of `n` effects, `x` is not interrupted.
def Within (n : ℕ) (x : Interruptible ι σ α) : Prop :=
  ∀ p, n ≤ p.budget → ∃ a p', x.exec p = (.ok a, p') ∧ p.budget ≤ p'.budget + n

namespace Within

theorem pure (a : α) : Within n (pure a : Interruptible ι σ α) :=
  fun p _ => ⟨a, p, rfl, Nat.le_add_right ..⟩

theorem bind (hx : Within m x) (hf : ∀ a, Within n (f a)) : Within (m + n) (x >>= f) := by
  intro p hp
  have ⟨a, p', h, hb⟩ := hx p (by omega)
  have ⟨b, p'', h', hb'⟩ := hf a p' (by omega)
  refine ⟨b, p'', ?_, by omega⟩
  rw [Prog.exec_bind, h]
  exact h'

theorem read_bind {f : σ → Interruptible ι σ β} (hf : ∀ s, Within n (f s)) :
    Within n (read >>= f) :=
  fun p hp => hf p.state p hp

theorem perform : Within (n + 1) (perform i g) := by
  intro p hp
  cases p with | mk s b l =>
  cases b
  case zero   => cases hp
  case succ b => exact ⟨(), _, rfl, Nat.add_le_add_left (Nat.le_add_left 1 n) b⟩

theorem perform_bind {f : Unit → Interruptible ι σ β} (hf : Within n (f ())) :
    Within (n + 1) (Interruptible.perform i g >>= f) := by
  have h : Within (1 + n) (Interruptible.perform i g >>= f) :=
    bind (m := 1) (perform (n := 0)) fun _ => hf
  exact Nat.add_comm 1 n ▸ h

theorem forM {f : α → Interruptible ι σ Unit} {l : List α} (h : ∀ a ∈ l, Within n (f a)) :
    Within (n * l.length) (l.forM f) := by
  induction l
  case nil => exact pure ()
  case cons a l hi =>
    have hl := hi fun b hb => h b (List.mem_cons_of_mem _ hb)
    rw [List.length_cons, Nat.mul_succ, Nat.add_comm]
    exact bind (h a List.mem_cons_self) fun _ => hl

end Within

end Interruptible
