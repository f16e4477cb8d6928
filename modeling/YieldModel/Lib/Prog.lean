import Mathlib
import YieldModel.Lib.Execution

-- Programs with a mutable state. They may fail with an error, which a caller can handle, or they may
-- panic. What a program has done to the state before it fails is not undone.

inductive Failure (ε : Type)
  | error (e : ε)
  | panic (message : String)

abbrev Prog (ε σ : Type) := ExceptT (Failure ε) (StateM σ)

namespace Prog

variable {ε σ α β : Type}

def exec (x : Prog ε σ α) (s : σ) : Except (Failure ε) α × σ :=
  x.run.run s

def error (e : ε) : Prog ε σ α :=
  throw (.error e)

def panic (message : String) : Prog ε σ α :=
  throw (.panic message)

-- The operator `?` on a result.
def ofResult : Except ε α → Prog ε σ α
  | .ok a    => pure a
  | .error e => error e

def ofExcept (r : Except (Failure ε) α) : Prog ε σ α :=
  ExceptT.mk (pure r)

def ofOption (message : String) : Option α → Prog ε σ α
  | some a => pure a
  | none   => panic message

def assert (c : Prop) [Decidable c] (message : String) : Prog ε σ Unit :=
  if c then pure () else panic message

-- Hands the result of `x` to the caller. Panics cannot be handled.
def attempt (x : Prog ε σ α) : Prog ε σ (Except ε α) :=
  ExceptT.mk <| StateT.mk fun s =>
    match x.exec s with
    | (.ok a, s')             => (.ok (.ok a), s')
    | (.error (.error e), s') => (.ok (.error e), s')
    | (.error (.panic m), s') => (.error (.panic m), s')

-- Runs `f` on all elements of a list, one after the other, and collects the results.
def collect (f : α → Prog ε σ β) : List α → Prog ε σ (List β)
  | []     => pure []
  | a :: l => do
    let b ← f a
    let bs ← collect f l
    return b :: bs

-- Runs `x` on the part of a larger state which is given by `view` and `update`.
def zoom {τ : Type} (view : τ → σ) (update : τ → σ → τ) (x : Prog ε σ α) : Prog ε τ α :=
  ExceptT.mk <| StateT.mk fun t =>
    match x.exec (view t) with
    | (r, s) => (r, update t s)

section Exec

variable {x : Prog ε σ α} {f : α → Prog ε σ β} {s : σ}

@[simp]
theorem exec_pure (a : α) : (pure a : Prog ε σ α).exec s = (.ok a, s) :=
  rfl

theorem exec_bind : (x >>= f).exec s =
    match x.exec s with
    | (.ok a, s')    => (f a).exec s'
    | (.error e, s') => (.error e, s') := by
  simp only [exec, bind, ExceptT.bind, ExceptT.run, ExceptT.mk, StateT.bind, StateT.run]
  cases x s with | mk r s' => cases r <;> rfl

@[simp]
theorem exec_error (e : ε) : (error e : Prog ε σ α).exec s = (.error (.error e), s) :=
  rfl

@[simp]
theorem exec_panic (m : String) : (panic m : Prog ε σ α).exec s = (.error (.panic m), s) :=
  rfl

@[simp]
theorem exec_get : (get : Prog ε σ σ).exec s = (.ok s, s) :=
  rfl

@[simp]
theorem exec_modify (g : σ → σ) : (modify g : Prog ε σ Unit).exec s = (.ok (), g s) :=
  rfl

theorem exec_zoom {τ : Type} {view : τ → σ} {update : τ → σ → τ} {t : τ} :
    (zoom view update x).exec t = ((x.exec (view t)).1, update t (x.exec (view t)).2) :=
  rfl

theorem exec_attempt : (attempt x).exec s =
    match x.exec s with
    | (.ok a, s')             => (.ok (.ok a), s')
    | (.error (.error e), s') => (.ok (.error e), s')
    | (.error (.panic m), s') => (.error (.panic m), s') :=
  rfl

end Exec

-- From every state which satisfies `P`, `x` returns with `Q`, or fails with `E`.
def Triple (P : σ → Prop) (x : Prog ε σ α) (Q : α → σ → Prop) (E : σ → Prop) : Prop :=
  ∀ s, P s →
    match x.exec s with
    | (.ok a, s')    => Q a s'
    | (.error _, s') => E s'

abbrev Keeps (I : σ → Prop) (x : Prog ε σ α) : Prop :=
  Triple I x (fun _ => I) I

namespace Triple

variable {P P' : σ → Prop} {Q Q' : α → σ → Prop} {R : β → σ → Prop} {E E' I : σ → Prop}
variable {x : Prog ε σ α} {f : α → Prog ε σ β} {s : σ}

theorem ok (h : Triple P x Q E) (hs : P s) {a : α} {s' : σ} (hx : x.exec s = (.ok a, s')) :
    Q a s' := by
  have := h s hs
  rwa [hx] at this

theorem exec (h : Triple P x (fun _ => E) E) (hs : P s) : E (x.exec s).2 := by
  have h := h s hs
  cases hx : x.exec s with | mk r s' =>
  rw [hx] at h
  cases r
  case ok a    => exact h
  case error e => exact h

theorem pure {a : α} (h : ∀ s, P s → Q a s) : Triple P (pure a : Prog ε σ α) Q E :=
  h

theorem bind (hx : Triple P x Q E) (hf : ∀ a, Triple (Q a) (f a) R E) :
    Triple P (x >>= f) R E := by
  intro s hs
  have hx := hx s hs
  rw [exec_bind]
  cases he : x.exec s with | mk r s' =>
  rw [he] at hx
  cases r
  case ok a    => exact hf a s' hx
  case error e => exact hx

theorem mono (hx : Triple P x Q E) (hp : ∀ s, P' s → P s) (hq : ∀ a s, Q a s → Q' a s)
    (he : ∀ s, E s → E' s) : Triple P' x Q' E' := by
  intro s hs
  have hx := hx s (hp s hs)
  cases h : x.exec s with | mk r s' =>
  rw [h] at hx
  cases r
  case ok a    => exact hq a s' hx
  case error e => exact he s' hx

-- A part of the precondition which is not about the state.
theorem given {φ : Prop} (h : φ → Triple P x Q E) : Triple (fun s => P s ∧ φ) x Q E :=
  fun s hs => h hs.2 s hs.1

theorem error (e : ε) (h : ∀ s, P s → E s) : Triple P (error e : Prog ε σ α) Q E :=
  h

theorem panic (m : String) (h : ∀ s, P s → E s) : Triple P (panic m : Prog ε σ α) Q E :=
  h

theorem get : Triple P (get : Prog ε σ σ) (fun a s => a = s ∧ P s) E :=
  fun _ hs => ⟨rfl, hs⟩

-- What is read from the state satisfied the precondition.
theorem get_bind {f : σ → Prog ε σ β} (h : ∀ s, P s → Triple P (f s) R E) :
    Triple P (MonadState.get >>= f) R E :=
  fun s hs => h s hs s hs

theorem modify {g : σ → σ} {Q : Unit → σ → Prop} (h : ∀ s, P s → Q () (g s)) :
    Triple P (modify g : Prog ε σ Unit) Q E :=
  h

theorem ofResult {r : Except ε α} (h : ∀ a, r = .ok a → ∀ s, P s → Q a s) (he : ∀ s, P s → E s) :
    Triple P (ofResult r : Prog ε σ α) Q E := by
  cases r
  case ok a    => exact h a rfl
  case error e => exact he

theorem ofOption {o : Option α} {m : String} (h : ∀ a, o = some a → ∀ s, P s → Q a s)
    (he : ∀ s, P s → E s) : Triple P (ofOption m o : Prog ε σ α) Q E := by
  cases o
  case some a => exact h a rfl
  case none   => exact he

theorem ofExcept {r : Except (Failure ε) α} (h : ∀ a, r = .ok a → ∀ s, P s → Q a s)
    (he : ∀ s, P s → E s) : Triple P (ofExcept r : Prog ε σ α) Q E := by
  cases r
  case ok a    => exact h a rfl
  case error e => exact he

theorem assert {c : Prop} [Decidable c] {m : String} {Q : Unit → σ → Prop}
    (h : c → ∀ s, P s → Q () s) (he : ∀ s, P s → E s) :
    Triple P (assert c m : Prog ε σ Unit) Q E := by
  unfold Prog.assert
  split
  case isTrue hc => exact h hc
  case isFalse   => exact he

theorem ite {c : Prop} [Decidable c] {y : Prog ε σ α} (hx : c → Triple P x Q E)
    (hy : ¬c → Triple P y Q E) : Triple P (if c then x else y) Q E := by
  split
  case isTrue h  => exact hx h
  case isFalse h => exact hy h

theorem zoom {τ : Type} {view : τ → σ} {update : τ → σ → τ} (h : Triple P x Q E)
    (hv : ∀ t s, view (update t s) = s) :
    Triple (P ∘ view) (zoom view update x) (fun a t => Q a (view t)) (E ∘ view) := by
  intro t ht
  have h := h (view t) ht
  rw [exec_zoom]
  cases hx : x.exec (view t) with | mk r s =>
  rw [hx] at h
  cases r
  case ok a =>
    change Q a (view (update t s))
    rw [hv]
    exact h
  case error e =>
    change E (view (update t s))
    rw [hv]
    exact h

-- What is known when `x` runs from the state `s`.
theorem run (x : Prog ε σ α) (s : σ) :
    Triple (· = s) x (fun a s' => x.exec s = (.ok a, s')) fun s' => s' = (x.exec s).2 := by
  intro s' hs
  cases hs
  cases hx : x.exec s with | mk r s' =>
  cases r
  case ok a    => rfl
  case error e => rfl

-- An error which is handled leaves what has been done up to it.
theorem attempt (hx : Triple P x Q E) :
    Triple P (attempt x) (fun r s => match r with | .ok a => Q a s | .error _ => E s) E := by
  intro s hs
  have hx := hx s hs
  rw [exec_attempt]
  cases h : x.exec s with | mk r s' =>
  rw [h] at hx
  cases r
  case ok a => exact hx
  case error e =>
    cases e
    case error e => exact hx
    case panic m => exact hx

theorem and {P' : σ → Prop} {Q' : α → σ → Prop} {E' : σ → Prop} (h : Triple P x Q E)
    (h' : Triple P' x Q' E') : Triple (fun s => P s ∧ P' s) x (fun a s => Q a s ∧ Q' a s)
      (fun s => E s ∧ E' s) := by
  intro s ⟨hs, hs'⟩
  have h := h s hs
  have h' := h' s hs'
  cases hx : x.exec s with | mk r s' =>
  rw [hx] at h h'
  cases r
  case ok a    => exact ⟨h, h'⟩
  case error e => exact ⟨h, h'⟩

-- What every round of a loop keeps, the loop keeps.
theorem forM {f : α → Prog ε σ Unit} {l : List α} (h : ∀ a ∈ l, Triple I (f a) (fun _ => I) E) :
    Triple I (l.forM f) (fun _ => I) E := by
  induction l
  case nil => exact pure fun _ hs => hs
  case cons a l ih =>
    exact bind (h a List.mem_cons_self) fun _ => ih fun b hb => h b (List.mem_cons_of_mem _ hb)

end Triple

namespace Keeps

variable {x : Prog ε σ α} {f : α → Prog ε σ β} {I : σ → Prop}

theorem pure (a : α) : Keeps I (pure a : Prog ε σ α) :=
  Triple.pure fun _ hs => hs

theorem bind (hx : Keeps I x) (hf : ∀ a, Keeps I (f a)) : Keeps I (x >>= f) :=
  Triple.bind hx hf

theorem get : Keeps I (get : Prog ε σ σ) :=
  fun _ hs => hs

theorem modify {g : σ → σ} (h : ∀ s, I s → I (g s)) : Keeps I (modify g : Prog ε σ Unit) :=
  Triple.modify h

-- A program does nothing but steps of `step` if all of its modifications are such steps.
theorem step {step : σ → σ → Prop} {g : σ → σ} {s₀ : σ} (h : ∀ s, step s (g s)) :
    Keeps (Execution.Steps step s₀) (MonadState.modifyGet fun s => ((), g s) : Prog ε σ Unit) :=
  modify fun s e => e.tail (h s)

theorem preserves {step : σ → σ → Prop} (h : ∀ s₀, Keeps (Execution.Steps step s₀) x)
    (hi : Execution.Preserves step I) : Keeps I x := by
  intro s hs
  have h := h s s .refl
  cases hx : x.exec s with | mk r s' =>
  rw [hx] at h
  cases r
  case ok a    => exact hi.steps h hs
  case error e => exact hi.steps h hs

theorem error (e : ε) : Keeps I (error e : Prog ε σ α) :=
  Triple.error e fun _ hs => hs

theorem panic (m : String) : Keeps I (panic m : Prog ε σ α) :=
  Triple.panic m fun _ hs => hs

theorem ofResult (r : Except ε α) : Keeps I (ofResult r : Prog ε σ α) :=
  Triple.ofResult (fun _ _ _ hs => hs) fun _ hs => hs

theorem ofOption (m : String) (o : Option α) : Keeps I (ofOption m o : Prog ε σ α) :=
  Triple.ofOption (fun _ _ _ hs => hs) fun _ hs => hs

theorem ofExcept (r : Except (Failure ε) α) : Keeps I (ofExcept r : Prog ε σ α) :=
  Triple.ofExcept (fun _ _ _ hs => hs) fun _ hs => hs

theorem assert (c : Prop) [Decidable c] (m : String) : Keeps I (assert c m : Prog ε σ Unit) :=
  Triple.assert (fun _ _ hs => hs) fun _ hs => hs

theorem ite {c : Prop} [Decidable c] {y : Prog ε σ α} (hx : Keeps I x) (hy : Keeps I y) :
    Keeps I (if c then x else y) :=
  Triple.ite (fun _ => hx) fun _ => hy

theorem attempt (hx : Keeps I x) : Keeps I (attempt x) :=
  (Triple.attempt hx).mono (fun _ hs => hs) (fun r _ hs => by cases r <;> exact hs) fun _ hs => hs

theorem forM {f : α → Prog ε σ Unit} {l : List α} (h : ∀ a ∈ l, Keeps I (f a)) :
    Keeps I (l.forM f) :=
  Triple.forM h

theorem collect {l : List α} (h : ∀ a ∈ l, Keeps I (f a)) : Keeps I (collect f l) := by
  induction l
  case nil => exact pure _
  case cons a l ih =>
    exact bind (h a List.mem_cons_self) fun _ =>
      bind (ih fun b hb => h b (List.mem_cons_of_mem _ hb)) fun _ => pure _

end Keeps

namespace Triple

variable {f : α → Prog ε σ β} {I : σ → Prop} {R : α → β → σ → Prop} {l : List α}

-- Results of which the following rounds keep what holds for them.
theorem collect (h : ∀ a ∈ l, Triple I (f a) (fun b s => I s ∧ R a b s) I)
    (hk : ∀ a b, ∀ a' ∈ l, Keeps (fun s => I s ∧ R a b s) (f a')) :
    Triple I (collect f l) (fun bs s => I s ∧ List.Forall₂ (fun a b => R a b s) l bs) I := by
  induction l
  case nil => exact pure fun _ hs => ⟨hs, .nil⟩
  case cons a l ih =>
    have hl := ih (fun a ha => h a (List.mem_cons_of_mem _ ha))
      (fun a b a' ha => hk a b a' (List.mem_cons_of_mem _ ha))
    refine bind (h a List.mem_cons_self) fun b => ?_
    have hb := Keeps.collect (hk a b · <| List.mem_cons_of_mem _ ·)
    refine bind ((hl.and hb).mono (fun _ hs => ⟨hs.1, hs⟩) (fun _ _ hs => hs) fun _ hs => hs.1) ?_
    exact fun bs => pure fun s ⟨⟨hi, hr⟩, _, hb⟩ => ⟨hi, .cons hb hr⟩

end Triple

end Prog

theorem mapM_id_eq_ok {ε α : Type} {rs : List (Except ε α)} {as : List α}
    (h : rs.mapM id = .ok as) : List.Forall₂ (fun r a => r = .ok a) rs as := by
  induction rs generalizing as
  case nil =>
    cases h
    exact .nil
  case cons r rs ih =>
    cases r
    case error e => cases h
    case ok a =>
      rw [List.mapM_cons] at h
      cases hr : rs.mapM id
      case error e =>
        rw [hr] at h
        cases h
      case ok bs =>
        rw [hr] at h
        cases h
        exact .cons rfl (ih hr)

theorem List.Forall₂.exists_of_mem {α β : Type} {R : α → β → Prop} {l : List α} {l' : List β}
    (h : List.Forall₂ R l l') {a : α} (ha : a ∈ l) : ∃ b ∈ l', R a b := by
  induction h
  case nil => cases ha
  case cons b b' l l' hb _ ih =>
    cases ha
    case head    => exact ⟨b', List.mem_cons_self, hb⟩
    case tail ha =>
      have ⟨c, hc, hac⟩ := ih ha
      exact ⟨c, List.mem_cons_of_mem _ hc, hac⟩
