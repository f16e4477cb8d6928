import YieldModel.Lib.Code

-- Code whose calls are served at once, one after the other. While a call is served, it may come back
-- to the contract, so it works on the storage as well. A failure ends the execution.

namespace Code

variable {σ ω κ ρ α β ε : Type}

-- `raise` reports a revert of the code itself.
def run (raise : String → ε) (serve : κ → σ → ω → Except ε (ρ × σ × ω)) :
    Code σ ω κ ρ α → σ → ω → Except ε (α × σ × ω)
  | pure a, s, w        => .ok (a, s, w)
  | revert reason, _, _ => .error (raise reason)
  | get f, s, w         => (f s).run raise serve s w
  | modify g c, s, w    => c.run raise serve (g s) w
  | view f, s, w        => (f w).run raise serve s w
  | call k f, s, w      => (serve k s w).bind fun x => (f x.1).run raise serve x.2.1 x.2.2

variable {raise : String → ε} {serve : κ → σ → ω → Except ε (ρ × σ × ω)}
variable {c : Code σ ω κ ρ α} {h : α → Code σ ω κ ρ β} {s s' : σ} {w w' : ω} {a : α} {k : κ}
variable {r : ρ} {e : ε} {reason : String}

theorem run_bind : (c >>= h).run raise serve s w =
    (c.run raise serve s w).bind fun x => (h x.1).run raise serve x.2.1 x.2.2 := by
  change (c.bind h).run raise serve s w = _
  induction c generalizing s w
  case pure      => rfl
  case revert    => rfl
  case get hi    => exact hi _
  case modify hi => exact hi
  case view hi   => exact hi _
  case call k f hi =>
    rw [bind, run, run]
    cases serve k s w
    case error => rfl
    case ok    => exact hi _

theorem run_pure : (Pure.pure a : Code σ ω κ ρ α).run raise serve s w = .ok (a, s, w) :=
  rfl

theorem run_read_bind {h : σ → Code σ ω κ ρ β} :
    (read >>= h).run raise serve s w = (h s).run raise serve s w :=
  rfl

theorem run_update_bind {g : σ → σ} {h : Unit → Code σ ω κ ρ β} :
    (update g >>= h).run raise serve s w = (h ()).run raise serve (g s) w :=
  rfl

theorem run_ok_bind : (ofCall (.ok a) >>= h).run raise serve s w = (h a).run raise serve s w :=
  rfl

theorem run_error_bind :
    (ofCall (.error reason) >>= h).run raise serve s w = .error (raise reason) :=
  rfl

theorem run_look_bind {x : ω → Call α} :
    (look x >>= h).run raise serve s w = (ofCall (x w) >>= h).run raise serve s w :=
  rfl

theorem run_require_bind {c : Prop} [Decidable c] {h : Unit → Code σ ω κ ρ β} (hc : c) :
    (require c reason >>= h).run raise serve s w = (h ()).run raise serve s w := by
  rw [require, Call.require, if_pos hc, run_ok_bind]

theorem run_require_not_bind {c : Prop} [Decidable c] {h : Unit → Code σ ω κ ρ β} (hc : ¬c) :
    (require c reason >>= h).run raise serve s w = .error (raise reason) := by
  rw [require, Call.require, if_neg hc, run_error_bind]

theorem run_send_bind {h : ρ → Code σ ω κ ρ β} (hk : serve k s w = .ok (r, s', w')) :
    (send k >>= h).run raise serve s w = (h r).run raise serve s' w' := by
  change (serve k s w).bind _ = _
  rw [hk]
  rfl

theorem run_send_error_bind {h : ρ → Code σ ω κ ρ β} (hk : serve k s w = .error e) :
    (send k >>= h).run raise serve s w = .error e := by
  change (serve k s w).bind _ = _
  rw [hk]
  rfl

theorem run_send_eq_error : (send k : Code σ ω κ ρ ρ).run raise serve s w = .error e ↔
    serve k s w = .error e := by
  change (serve k s w).bind _ = _ ↔ _
  cases serve k s w
  case error => exact Iff.rfl
  case ok    => exact iff_of_false (fun h => by cases h) fun h => by cases h

-- Code does not fail with an error which neither it nor any of its calls raises.
theorem Meets.run_ne {P : κ → Prop} (s₀ : σ) (hr : ∀ reason, raise reason ≠ e)
    (hk : ∀ k s w, P k → serve k s w ≠ .error e)
    (h : c.Meets (fun _ _ _ _ => True) (fun _ _ _ k => P k) s₀ s w) :
    c.run raise serve s w ≠ .error e := by
  induction c generalizing s₀ s w
  case pure          => exact fun he => by cases he
  case revert reason => exact fun he => hr reason (Except.error.inj he)
  case get hi        => exact hi _ _ h
  case modify hi     => exact hi _ h
  case view hi       => exact hi _ _ h
  case call k f hi =>
    have hs := hk k s w h.left
    rw [run]
    cases hx : serve k s w
    case error e' => exact fun he => hs (hx.trans (congrArg _ (Except.error.inj he)))
    case ok x     => exact hi x.1 _ (h.right x.1 x.2.1 x.2.2)

end Code
