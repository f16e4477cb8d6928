import YieldModel.FlashLoans.Trader
import YieldModel.FlashLoans.Roller

open Reentrancy Execution FlashLoans Code

namespace FlashLoans

variable {Bytes : Type} {isCallback accepts : Prop} {shortcut : Address → Prop} {sender : Address}
variable {r : Request Bytes}

-- The requests of a function which has been called by `sender`. If it is a callback, it has accepted
-- the call, and all its effects are on behalf of `sender`. Nothing else approves anybody.
structure Makes (isCallback accepts : Prop) (shortcut : Address → Prop) (sender : Address)
    (k : Msg Bytes) : Prop where
  callback : ∀ a r, k = .callback a r → isCallback ∧ a = sender ∨ shortcut a
  spender  : ∀ a, k.request.spender = some a → isCallback ∧ a = sender
  accepts  : isCallback → accepts

theorem Makes.own (hc : ¬isCallback) (hr : r.spender = none) :
    Makes isCallback accepts shortcut sender (.own r) where
  callback _ _ h := by cases h
  spender _ h    := by simp [Msg.request, hr] at h
  accepts h      := absurd h hc

theorem Makes.effect (hc : isCallback) (ha : accepts)
    (hr : r.spender = none ∨ r.spender = some sender) :
    Makes isCallback accepts shortcut sender (.callback sender r) where
  callback _ _ h := by cases h; exact .inl ⟨hc, rfl⟩
  spender a h    := by
    cases hr
    case inl hr => simp [Msg.request, hr] at h
    case inr hr => exact ⟨hc, Option.some.inj (h.symm.trans hr)⟩
  accepts _      := ha

theorem Makes.inShortcut {a : Address} (hc : ¬isCallback) (ha : shortcut a) (hr : r.spender = none) :
    Makes isCallback accepts shortcut sender (.callback a r) where
  callback _ _ h := by cases h; exact .inr ha
  spender _ h    := by simp [Msg.request, hr] at h
  accepts h      := absurd h hc

end FlashLoans

namespace Trader

variable {Bytes ω : Type} {T : Setting Bytes ω} {sender : Address} {s : Storage} {w : ω}
variable {saved : Storage × ω} {p : Msg Bytes → Prop}

def Entry.isCallback : Entry Bytes → Bool
  | .onFlashLoan .. => true
  | _               => false

def Entry.borrows : Entry Bytes → Bool
  | .sellFYToken .. => true
  | .buyBase ..     => true
  | _               => false

-- The checks of `onFlashLoan`. None of them is about the sender.
def accepts (T : Setting Bytes ω) (saved : Storage × ω) : Entry Bytes → Prop
  | .onFlashLoan _ token _ _ data =>
    saved.1.init ≠ 0 ∧ ∃ trade pool baseOut limit fyToken join,
      T.abi.decode data = .ok (trade, pool, baseOut, limit) ∧
      T.views.fyToken saved.2 pool = .ok fyToken ∧ T.views.base saved.2 pool = .ok token ∧
      T.views.join saved.2 fyToken = .ok join
  | _ => False

def makes (T : Setting Bytes ω) (e : Entry Bytes) (sender : Address) (saved : Storage × ω) :
    Msg Bytes → Prop :=
  Makes e.isCallback (accepts T saved e) (fun _ => False) sender

theorem roles_respects {a : AccessControl.Action} :
    Respects (·.init ≠ 0) p (roles sender a : M Bytes ω _) s w false := by
  simp only [Respects, roles, meets_bind, meets_read, meets_ofCall, meets_update, meets_pure]
  exact fun _ _ => id

theorem authorize_respects {grantee : Address} :
    Respects (·.init ≠ 0) p (authorize sender grantee : M Bytes ω _) s w false := by
  simp only [Respects, authorize, auth, meets_bind, meets_read, meets_ofCall, meets_update,
    meets_pure]
  exact fun _ _ => id

theorem retrieve_respects {token : Address} :
    Respects (·.init ≠ 0) (makes T (.retrieve token) sender saved) (retrieve T sender token)
      s w false := by
  simp only [Respects, retrieve, auth, meets_bind, meets_read, meets_ofCall, meets_look, meets_send,
    meets_pure]
  exact fun _ _ _ _ => ⟨⟨.own Bool.false_ne_true rfl, id⟩, fun _ _ _ => id⟩

theorem sellFYToken_respects {pool : Address} {fySold minBaseOut : Uint 128} :
    Respects (·.init ≠ 0) (makes T (.sellFYToken pool fySold minBaseOut) sender saved)
      (sellFYToken T sender pool fySold minBaseOut) s w true := by
  simp only [Respects, sellFYToken, auth, meets_bind, meets_read, meets_ofCall, meets_look,
    meets_update, meets_send, meets_pure]
  intros
  exact ⟨.own Bool.false_ne_true rfl, by simp⟩

theorem buyBase_respects {pool : Address} {baseBought maxFyIn : Uint 128} :
    Respects (·.init ≠ 0) (makes T (.buyBase pool baseBought maxFyIn) sender saved)
      (buyBase T sender pool baseBought maxFyIn) s w true := by
  simp only [Respects, buyBase, auth, meets_bind, meets_read, meets_ofCall, meets_look,
    meets_update, meets_send, meets_pure]
  intros
  exact ⟨.own Bool.false_ne_true rfl, by simp⟩

theorem onFlashLoan_respects {initiator token : Address} {amount fee : Uint 256} {data : Bytes} :
    Respects (·.init ≠ 0) (makes T (.onFlashLoan initiator token amount fee data) sender (s, w))
      (onFlashLoan T sender token amount data) s w false := by
  simp only [Respects, onFlashLoan, meets_bind, meets_read, meets_require, meets_ofCall, meets_look,
    meets_send, meets_pure]
  intro hi d hd fyToken hf base hb ht join hj
  have ha : accepts T (s, w) (.onFlashLoan initiator token amount fee data) :=
    ⟨hi, _, _, _, _, _, _, hd, hf, ht ▸ hb, hj⟩
  have he (r : Request Bytes) (hr : r.spender = none ∨ r.spender = some sender) :
      makes T (.onFlashLoan initiator token amount fee data) sender (s, w) (.callback sender r) :=
    .effect rfl ha hr
  refine ⟨⟨he _ (.inr rfl), id⟩, fun _ _ _ => ?_⟩
  refine ⟨⟨he _ (.inl rfl), id⟩, fun _ _ _ => ?_⟩
  refine ⟨⟨he _ (.inl rfl), id⟩, fun _ _ _ => ?_⟩
  refine ⟨⟨he _ (.inl ?_), id⟩, fun _ _ _ => id⟩
  split <;> rfl

-- Whoever has called `onFlashLoan` is approved first.
theorem onFlashLoan_approves {initiator token : Address} {amount fee : Uint 256} {data : Bytes}
    (h : accepts T (s, w) (.onFlashLoan initiator token amount fee data)) :
    ∃ next, (onFlashLoan T sender token amount data).exec s w =
      .calls s (.callback sender (.approve token sender (.max 256))) next := by
  obtain ⟨hi, _, _, _, _, _, _, hd, hf, hb, hj⟩ := h
  simp only [onFlashLoan, exec_read_bind, exec_require_bind hi, hd, exec_look_bind, hf, hb, hj,
    exec_ok_bind, exec_require_bind, exec_send_bind]
  exact ⟨_, rfl⟩

-- The semaphore is open during a trade. It is checked by `onFlashLoan`, which asks for nothing else.
def loans (T : Setting Bytes ω) : Loans (contract T) where
  isOpen s         := s.init ≠ 0
  borrows          := Entry.borrows
  callback e       := e.isCallback
  accepts e saved  := accepts T saved e
  lender           := Msg.lender
  makes            := makes T
  body e _ _       := by
    cases e
    case roles       => exact roles_respects
    case authorize   => exact authorize_respects
    case retrieve    => exact retrieve_respects
    case sellFYToken => exact sellFYToken_respects
    case buyBase     => exact buyBase_respects
    case onFlashLoan => exact onFlashLoan_respects
  accepted _ _ _ _ hc hk := hk.accepts hc
  open_ e _ _ ha   := by
    cases e
    case onFlashLoan => exact ha.left
    all_goals cases ha

end Trader

namespace Roller

variable {Bytes ω : Type} {R : Setting Bytes ω} {sender : Address} {s : Storage} {w : ω}
variable {saved : Storage × ω} {p : Msg Bytes → Prop}

def Entry.isCallback : Entry Bytes → Bool
  | .onFlashLoan .. => true
  | _               => false

def Entry.borrows : Entry Bytes → Bool
  | .roll .. => true
  | _        => false

-- The loan which is taken for a roll.
def loan (R : Setting Bytes ω) (w : ω) (strategy : Address) (maxLoan : Uint 256) :
    Call (Uint 256) := do
  let pool ← R.views.pool w strategy
  let fyToken ← R.views.fyToken w pool
  let toRedeem ← R.views.balanceOf w fyToken pool
  return if maxLoan < toRedeem then maxLoan else toRedeem

-- The Roller calls itself in a roll without a loan.
def Shortcut (R : Setting Bytes ω) (w : ω) (a : Address) : Entry Bytes → Prop
  | .roll strategy maxLoan _ _ => a = R.this ∧ loan R w strategy maxLoan = .ok 0
  | _                          => False

-- The checks of `onFlashLoan`. None of them is about the sender.
def accepts (R : Setting Bytes ω) (saved : Storage × ω) : Entry Bytes → Prop
  | .onFlashLoan .. =>
    saved.1._strategy ≠ 0 ∧ ∃ baseId join pool fyToken,
      R.views.baseId saved.2 saved.1._strategy = .ok baseId ∧
      R.views.joins saved.2 R.ladle baseId = .ok join ∧ join ≠ 0 ∧
      R.views.nextPool saved.2 saved.1._strategy = .ok pool ∧ pool ≠ 0 ∧
      R.views.fyToken saved.2 pool = .ok fyToken
  | _ => False

def makes (R : Setting Bytes ω) (e : Entry Bytes) (sender : Address) (saved : Storage × ω) :
    Msg Bytes → Prop :=
  Makes e.isCallback (accepts R saved e) (fun a => Shortcut R saved.2 a e) sender

theorem roles_respects {a : AccessControl.Action} :
    Respects (·._strategy ≠ 0) p (roles sender a : M Bytes ω _) s w false := by
  simp only [Respects, roles, meets_bind, meets_read, meets_ofCall, meets_update, meets_pure]
  exact fun _ _ => id

theorem onFlashLoan_respects {initiator token : Address} {amount fee : Uint 256} {data : Bytes} :
    Respects (·._strategy ≠ 0) (makes R (.onFlashLoan initiator token amount fee data) sender (s, w))
      (onFlashLoan R sender token amount fee) s w false := by
  simp only [Respects, onFlashLoan, meets_bind, meets_read, meets_require, meets_look]
  intro hi baseId hb join hj hj' pool hp hp' fyToken hf
  have ha : accepts R (s, w) (.onFlashLoan initiator token amount fee data) :=
    ⟨hi, _, _, _, _, hb, hj, hj', hp, hp', hf⟩
  have he (r : Request Bytes) (hr : r.spender = none ∨ r.spender = some sender) :
      makes R (.onFlashLoan initiator token amount fee data) sender (s, w) (.callback sender r) :=
    .effect rfl ha hr
  split <;>
    simp [meets_bind, meets_send, meets_ofCall, meets_pure, he, Request.spender]

-- Whoever has called `onFlashLoan`, it has an effect.
theorem onFlashLoan_calls {initiator token : Address} {amount fee : Uint 256} {data : Bytes}
    (h : accepts R (s, w) (.onFlashLoan initiator token amount fee data)) :
    ∃ r next, (onFlashLoan R sender token amount fee).exec s w =
      .calls s (.callback sender r) next ∧ (r.target = token ∨ r.target = s._strategy) := by
  obtain ⟨hi, baseId, join, pool, fyToken, hb, hj, hj', hp, hp', hf⟩ := h
  simp only [onFlashLoan, exec_read_bind, exec_require_bind hi, exec_look_bind, hb, hj, hp, hf,
    exec_ok_bind, exec_require_bind hj', exec_require_bind hp']
  split
  case isTrue  => exact ⟨.safeTransfer token join amount, _, exec_send_bind, .inl rfl⟩
  case isFalse => exact ⟨.endPool s._strategy, _, exec_send_bind, .inr rfl⟩

theorem roll_respects {strategy lender remainder : Address} {maxLoan : Uint 256} :
    Respects (·._strategy ≠ 0) (makes R (.roll strategy maxLoan lender remainder) sender (s, w))
      (roll R sender strategy maxLoan lender remainder) s w true := by
  have ho (r : Request Bytes) (hr : r.spender = none) :
      makes R (.roll strategy maxLoan lender remainder) sender (s, w) (.own r) :=
    .own Bool.false_ne_true hr
  simp only [Respects, roll, meets_bind, meets_read, meets_require, meets_ofCall, meets_look,
    meets_update]
  intro _ _ pool hp _ base _ fyToken hf toRedeem hr
  have hl : loan R w strategy maxLoan = .ok (if maxLoan < toRedeem then maxLoan else toRedeem) := by
    simp only [loan, Call.bind_eq_ok, Call.pure_eq_ok]
    exact ⟨pool, hp, fyToken, hf, toRedeem, hr, rfl⟩
  generalize (if maxLoan < toRedeem then maxLoan else toRedeem) = amount at hl ⊢
  split
  case isTrue =>
    simp only [meets_bind, meets_look, meets_update, meets_send, meets_pure]
    exact ⟨ho _ rfl, fun _ _ _ _ _ => ⟨ho _ rfl, fun _ _ _ => not_not.mpr rfl⟩⟩
  case isFalse ha =>
    have hs : Shortcut R w R.this (.roll strategy maxLoan lender remainder) :=
      ⟨rfl, by rw [hl, Fin.le_zero_iff.mp (not_lt.mp ha)]⟩
    have he (r : Request Bytes) (hr : r.spender = none) :
        makes R (.roll strategy maxLoan lender remainder) sender (s, w) (.callback R.this r) :=
      .inShortcut Bool.false_ne_true hs hr
    simp only [onFlashLoan, meets_bind, meets_read, meets_require, meets_look, lt_irrefl, if_false,
      meets_send, meets_pure, meets_update]
    intros
    exact ⟨he _ rfl, fun _ _ _ => ⟨he _ rfl, fun _ _ _ _ _ => ⟨ho _ rfl, fun _ _ _ =>
      not_not.mpr rfl⟩⟩⟩

-- The semaphore is open during a roll. It is checked by `onFlashLoan`, which asks for nothing else.
def loans (R : Setting Bytes ω) : Loans (contract R) where
  isOpen s         := s._strategy ≠ 0
  borrows          := Entry.borrows
  callback e       := e.isCallback
  accepts e saved  := accepts R saved e
  lender           := Msg.lender
  makes            := makes R
  body e _ _       := by
    cases e
    case roles       => exact roles_respects
    case roll        => exact roll_respects
    case onFlashLoan => exact onFlashLoan_respects
  accepted _ _ _ _ hc hk := hk.accepts hc
  open_ e _ _ ha   := by
    cases e
    case onFlashLoan => exact ha.left
    all_goals cases ha

end Roller
