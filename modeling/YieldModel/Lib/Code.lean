import YieldModel.Lib.Checked

-- The code of a contract. It works on the storage `σ` of the contract, looks at the world `ω`, which
-- is everything else, and makes calls `κ`. Before these are answered by a `ρ`, anything can happen.

inductive Code (σ ω κ ρ α : Type)
  | pure (a : α)
  | revert (reason : String)
  | get (f : σ → Code σ ω κ ρ α)
  | modify (g : σ → σ) (c : Code σ ω κ ρ α)
  | view (f : ω → Code σ ω κ ρ α)
  | call (k : κ) (f : ρ → Code σ ω κ ρ α)

namespace Code

variable {σ ω κ ρ α β : Type}

def bind : Code σ ω κ ρ α → (α → Code σ ω κ ρ β) → Code σ ω κ ρ β
  | pure a, h        => h a
  | revert reason, _ => revert reason
  | get f, h         => get fun s => (f s).bind h
  | modify g c, h    => modify g (c.bind h)
  | view f, h        => view fun w => (f w).bind h
  | call k f, h      => call k fun r => (f r).bind h

instance : Monad (Code σ ω κ ρ) where
  pure := pure
  bind := bind

def ofCall : Call α → Code σ ω κ ρ α
  | .ok a         => pure a
  | .error reason => revert reason

def require (c : Prop) [Decidable c] (reason : String) : Code σ ω κ ρ Unit :=
  ofCall (Call.require c reason)

def read : Code σ ω κ ρ σ :=
  get pure

def update (g : σ → σ) : Code σ ω κ ρ Unit :=
  modify g (pure ())

def look (f : ω → Call α) : Code σ ω κ ρ α :=
  view fun w => ofCall (f w)

def send (k : κ) : Code σ ω κ ρ ρ :=
  call k pure

-- How the execution of code continues: until it returns, reverts or makes its first call, nothing
-- else happens.
inductive Outcome (σ ω κ ρ α : Type)
  | returns (s : σ) (a : α)
  | calls (s : σ) (k : κ) (f : ρ → Code σ ω κ ρ α)
  | reverts (reason : String)

def exec : Code σ ω κ ρ α → σ → ω → Outcome σ ω κ ρ α
  | pure a, s, _        => .returns s a
  | revert reason, _, _ => .reverts reason
  | get f, s, w         => (f s).exec s w
  | modify g c, s, w    => c.exec (g s) w
  | view f, s, w        => (f w).exec s w
  | call k f, s, _      => .calls s k f

-- The specification of code. When it is entered and after each answer, a new segment starts, at a
-- storage `s₀`. Segments end with a call, which is described by `mid`, or by returning, which is
-- described by `ret`.
def Meets (ret : σ → σ → ω → α → Prop) (mid : σ → σ → ω → κ → Prop) :
    Code σ ω κ ρ α → σ → σ → ω → Prop
  | pure a, s₀, s, w     => ret s₀ s w a
  | revert _, _, _, _    => True
  | get f, s₀, s, w      => (f s).Meets ret mid s₀ s w
  | modify g c, s₀, s, w => c.Meets ret mid s₀ (g s) w
  | view f, s₀, s, w     => (f w).Meets ret mid s₀ s w
  | call k f, s₀, s, w   => mid s₀ s w k ∧ ∀ r s' w', (f r).Meets ret mid s' s' w'

variable {ret : σ → σ → ω → α → Prop} {ret' : σ → σ → ω → β → Prop} {mid : σ → σ → ω → κ → Prop}
variable {c : Code σ ω κ ρ α} {s₀ s s' : σ} {w : ω} {a : α} {k : κ} {f : ρ → Code σ ω κ ρ α}

theorem Meets.of_returns (h : c.Meets ret mid s₀ s w) (he : c.exec s w = .returns s' a) :
    ret s₀ s' w a := by
  induction c generalizing s
  case pure         => cases he; exact h
  case revert       => cases he
  case get hi       => exact hi _ h he
  case modify hi    => exact hi h he
  case view hi      => exact hi _ h he
  case call         => cases he

theorem Meets.of_calls (h : c.Meets ret mid s₀ s w) (he : c.exec s w = .calls s' k f) :
    mid s₀ s' w k ∧ ∀ r s w, (f r).Meets ret mid s s w := by
  induction c generalizing s
  case pure         => cases he
  case revert       => cases he
  case get hi       => exact hi _ h he
  case modify hi    => exact hi h he
  case view hi      => exact hi _ h he
  case call         => cases he; exact h

-- Code which leaves the storage alone, as far as it starts at `s`.
def Still (c : Code σ ω κ ρ α) (s : σ) : Prop :=
  ∀ w, c.Meets (fun s₀ s _ _ => s = s₀) (fun s₀ s _ _ => s = s₀) s s w

theorem meets_bind {h : α → Code σ ω κ ρ β} : (c >>= h).Meets ret' mid s₀ s w ↔
    c.Meets (fun s₀ s w a => (h a).Meets ret' mid s₀ s w) mid s₀ s w := by
  change (c.bind h).Meets ret' mid s₀ s w ↔ _
  induction c generalizing s₀ s w
  case pure      => rfl
  case revert    => rfl
  case get hi    => exact hi _
  case modify hi => exact hi
  case view hi   => exact hi _
  case call hi   => exact and_congr_right fun _ => forall₃_congr fun _ _ _ => hi _

-- How the first segment goes on.

variable {h : α → Code σ ω κ ρ β}

theorem exec_read_bind {h : σ → Code σ ω κ ρ β} : (read >>= h).exec s w = (h s).exec s w :=
  rfl

theorem exec_ok_bind : (ofCall (.ok a) >>= h : Code σ ω κ ρ β).exec s w = (h a).exec s w :=
  rfl

theorem exec_look_bind {x : ω → Call α} :
    (look x >>= h).exec s w = (ofCall (x w) >>= h).exec s w :=
  rfl

theorem exec_require_bind {c : Prop} [Decidable c] {reason : String} {h : Unit → Code σ ω κ ρ β}
    (hc : c) : (require c reason >>= h).exec s w = (h ()).exec s w := by
  rw [require, Call.require, if_pos hc, exec_ok_bind]

theorem exec_send_bind {h : ρ → Code σ ω κ ρ β} : (send k >>= h).exec s w = .calls s k h :=
  rfl

theorem meets_pure : (Pure.pure a : Code σ ω κ ρ α).Meets ret mid s₀ s w ↔ ret s₀ s w a :=
  Iff.rfl

theorem meets_ofCall {x : Call α} : (ofCall x : Code σ ω κ ρ α).Meets ret mid s₀ s w ↔
    ∀ a, x = .ok a → ret s₀ s w a := by
  cases x <;> simp [ofCall, Meets]

theorem meets_require {c : Prop} [Decidable c] {reason : String}
    {ret : σ → σ → ω → Unit → Prop} : (require c reason : Code σ ω κ ρ Unit).Meets ret mid s₀ s w ↔
    (c → ret s₀ s w ()) := by
  simp only [require, meets_ofCall, Call.require_eq_ok]
  exact ⟨fun h => h (), fun h _ => h⟩

theorem meets_read {ret : σ → σ → ω → σ → Prop} :
    (read : Code σ ω κ ρ σ).Meets ret mid s₀ s w ↔ ret s₀ s w s :=
  Iff.rfl

theorem meets_update {g : σ → σ} {ret : σ → σ → ω → Unit → Prop} :
    (update g : Code σ ω κ ρ Unit).Meets ret mid s₀ s w ↔ ret s₀ (g s) w () :=
  Iff.rfl

theorem meets_look {x : ω → Call α} : (look x : Code σ ω κ ρ α).Meets ret mid s₀ s w ↔
    ∀ a, x w = .ok a → ret s₀ s w a :=
  meets_ofCall

theorem meets_send {ret : σ → σ → ω → ρ → Prop} :
    (send k : Code σ ω κ ρ ρ).Meets ret mid s₀ s w ↔
    mid s₀ s w k ∧ ∀ r s w, ret s s w r :=
  Iff.rfl

end Code
