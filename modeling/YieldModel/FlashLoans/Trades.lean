import YieldModel.FlashLoans.Trader
import YieldModel.Lib.Sequential

open FlashLoans

namespace Trader

variable {Bytes ω : Type}

-- The requests of `onFlashLoan`.
def serveCallback (T : Setting Bytes ω) (E : Env ω Bytes) (k : Msg Bytes) (s : Storage) (w : ω) :
    Call (Option (Uint 256) × Storage × ω) := do
  let w ← E.perform w T.this k.request
  return (none, s, w)

-- The lender calls `onFlashLoan` between paying out the loan and taking it back.
def serve (T : Setting Bytes ω) (E : Env ω Bytes) (k : Msg Bytes) (s : Storage) (w : ω) :
    Call (Option (Uint 256) × Storage × ω) :=
  match k.request with
  | .flashLoan lender receiver token amount data => do
    let (fee, w) ← E.lend w receiver token amount
    let (r, s, w) ← ((contract T).body (.onFlashLoan receiver token amount fee data) lender).run id
      (serveCallback T E) s w
    Call.require (r = some CALLBACK_SUCCESS) "FlashLoan: callback failed"
    let w ← E.repay w receiver token amount fee
    return (none, s, w)
  | r => do
    let w ← E.perform w T.this r
    return (none, s, w)

-- The two kinds of trades.
inductive Order
  | sellFYToken (pool : Address) (fySold minBaseOut : Uint 128)
  | buyBase (pool : Address) (baseBought maxFyIn : Uint 128)

namespace Order

def entry : Order → Entry Bytes
  | .sellFYToken pool fySold minBaseOut => .sellFYToken pool fySold minBaseOut
  | .buyBase pool baseBought maxFyIn    => .buyBase pool baseBought maxFyIn

def selector : Order → Bytes4
  | .sellFYToken .. => Trader.selector.sellFYToken
  | .buyBase ..     => Trader.selector.buyBase

def pool : Order → Address
  | .sellFYToken pool .. => pool
  | .buyBase pool ..     => pool

def kind : Order → Trade
  | .sellFYToken .. => .SELLFYTOKEN
  | .buyBase ..     => .BUYBASE

def baseOut : Order → Uint 128
  | .sellFYToken ..         => 0
  | .buyBase _ baseBought _ => baseBought

def limit : Order → Uint 128
  | .sellFYToken _ _ minBaseOut => minBaseOut
  | .buyBase _ _ maxFyIn        => maxFyIn

def fySold (T : Setting Bytes ω) (w : ω) : Order → Call (Uint 128)
  | .sellFYToken _ fySold _     => .ok fySold
  | .buyBase pool baseBought _  => T.views.buyBasePreview w pool baseBought

def swap (T : Setting Bytes ω) : Order → Request Bytes
  | .sellFYToken pool _ minBaseOut     => .sellFYToken pool T.this minBaseOut
  | .buyBase pool baseBought maxFyIn   => .buyBase pool T.this baseBought maxFyIn

def data (T : Setting Bytes ω) (o : Order) : Bytes :=
  T.abi.encode o.kind o.pool o.baseOut o.limit

end Order

-- The balance of the Trader changes by a gain and a loss.
def Moves (T : Setting Bytes ω) (base : Address) (w : ω) (gain loss : ℕ) (w' : ω) : Prop :=
  ∃ x x' : Uint 256, T.views.balanceOf w base T.this = .ok x ∧
    T.views.balanceOf w' base T.this = .ok x' ∧ (x' : ℕ) + loss = x + gain

-- What the other contracts do in the course of a trade. The lender pays out `n` for a fee, fyToken is
-- minted for it and sold, and the pool pays `out`. The lender takes what it is owed if it is there.
structure Deal (T : Setting Bytes ω) (E : Env ω Bytes) (o : Order) (sender : Address) (s : Storage)
    (w w₁ w₂ w₃ w₄ w₅ : ω) (base fyToken join : Address) (b fee : Uint 256) (n : Uint 128)
    (out : ℕ) : Prop where
  authorized : s.roles.auth o.selector sender = .ok ()
  base₀      : T.views.base w o.pool = .ok base
  balance    : T.views.balanceOf w base T.this = .ok b
  fySold     : o.fySold T w = .ok n
  lent       : E.lend w T.this base (toUint256 n) = .ok (fee, w₁)
  lends      : Moves T base w n 0 w₁
  decoded    : T.abi.decode (o.data T) = .ok (o.kind, o.pool, o.baseOut, o.limit)
  fyToken₁   : T.views.fyToken w₁ o.pool = .ok fyToken
  base₁      : T.views.base w₁ o.pool = .ok base
  join₁      : T.views.join w₁ fyToken = .ok join
  approved   : E.perform w₁ T.this (.approve base T.lender (.max 256)) = .ok w₂
  approves   : Moves T base w₁ 0 0 w₂
  funded     : E.perform w₂ T.this (.safeTransfer base join (toUint256 n)) = .ok w₃
  funds      : Moves T base w₂ 0 n w₃
  minted     : E.perform w₃ T.this (.mintWithUnderlying fyToken o.pool (toUint256 n)) = .ok w₄
  mints      : Moves T base w₃ 0 0 w₄
  swapped    : E.perform w₄ T.this (o.swap T) = .ok w₅
  swaps      : Moves T base w₄ out 0 w₅
  repays     : ∀ x : Uint 256, T.views.balanceOf w₅ base T.this = .ok x → (n : ℕ) + fee ≤ x →
               ∃ w₆, E.repay w₅ T.this base (toUint256 n) fee = .ok w₆ ∧ Moves T base w₅ 0 (n + fee) w₆

variable {T : Setting Bytes ω} {E : Env ω Bytes} {o : Order} {sender base fyToken join : Address}
  {s : Storage} {w w₁ w₂ w₃ w₄ w₅ w₆ : ω} {b fee : Uint 256} {n : Uint 128} {out : ℕ}

theorem Moves.eq {x x' : Uint 256} {gain loss : ℕ} (h : Moves T base w gain loss w₁)
    (hx : T.views.balanceOf w base T.this = .ok x)
    (hx' : T.views.balanceOf w₁ base T.this = .ok x') : (x' : ℕ) + loss = x + gain := by
  obtain ⟨_, _, hy, hy', h⟩ := h
  cases hx.symm.trans hy
  cases hx'.symm.trans hy'
  exact h

-- After the swap, the Trader has what it has started with and what the pool has paid.
theorem Deal.balance_swapped (h : Deal T E o sender s w w₁ w₂ w₃ w₄ w₅ base fyToken join b fee n out) :
    ∃ x : Uint 256, T.views.balanceOf w₅ base T.this = .ok x ∧ (x : ℕ) = b + out := by
  obtain ⟨x₀, x₁, h₀, h₁, e₁⟩ := h.lends
  obtain ⟨_, x₂, _, h₂, _⟩ := h.approves
  obtain ⟨_, x₃, _, h₃, _⟩ := h.funds
  obtain ⟨_, x₄, _, h₄, _⟩ := h.mints
  obtain ⟨_, x₅, _, h₅, _⟩ := h.swaps
  have e₂ := h.approves.eq h₁ h₂
  have e₃ := h.funds.eq h₂ h₃
  have e₄ := h.mints.eq h₃ h₄
  have e₅ := h.swaps.eq h₄ h₅
  cases h.balance.symm.trans h₀
  exact ⟨x₅, h₅, by omega⟩

theorem run_auth_bind {raise : String → String} {α : Type}
    {serve : Msg Bytes → Storage → ω → Call (Option (Uint 256) × Storage × ω)} {sig : Bytes4}
    {f : Unit → M Bytes ω α} (h : s.roles.auth sig sender = .ok ()) :
    (auth sig sender >>= f).run raise serve s w = (f ()).run raise serve s w := by
  change (Code.ofCall (s.roles.auth sig sender) >>= f).run raise serve s w = _
  rw [h, Code.run_ok_bind]

theorem serveCallback_ok {k : Msg Bytes} (h : E.perform w T.this k.request = .ok w₁) :
    serveCallback T E k s w = .ok (none, s, w₁) := by
  rw [serveCallback, h]
  rfl

-- Without a balance to begin with, the semaphore is not set.
theorem onFlashLoan_unauthorized {token : Address} {amount : Uint 256} {data : Bytes}
    {serve : Msg Bytes → Storage → ω → Call (Option (Uint 256) × Storage × ω)} (h : s.init = 0) :
    (onFlashLoan T sender token amount data).run id serve s w = .error "Unauthorized" :=
  Code.run_require_not_bind (not_not.mpr h)

theorem Deal.onFlashLoan_run
    (h : Deal T E o sender s w w₁ w₂ w₃ w₄ w₅ base fyToken join b fee n out) {s' : Storage}
    (hs : s'.init ≠ 0) :
    (onFlashLoan T T.lender base (toUint256 n) (o.data T)).run id (serveCallback T E) s' w₁ =
      .ok (some CALLBACK_SUCCESS, s', w₅) := by
  have hk : (if o.kind = .SELLFYTOKEN then Request.sellFYToken o.pool T.this o.limit
      else .buyBase o.pool T.this o.baseOut o.limit : Request Bytes) = o.swap T := by
    cases o <;> rfl
  have hd := h.decoded
  rw [onFlashLoan, Code.run_read_bind, Code.run_require_bind hs, hd, Code.run_ok_bind]
  dsimp only
  rw [Code.run_look_bind, h.fyToken₁, Code.run_ok_bind, Code.run_look_bind, h.base₁,
    Code.run_ok_bind, Code.run_require_bind rfl, Code.run_look_bind, h.join₁, Code.run_ok_bind,
    Code.run_send_bind (serveCallback_ok h.approved),
    Code.run_send_bind (serveCallback_ok h.funded), Code.run_send_bind (serveCallback_ok h.minted),
    hk, Code.run_send_bind (serveCallback_ok h.swapped), Code.run_pure]

-- The part of a trade which takes the loan, and returns its cost.
def borrow (T : Setting Bytes ω) (base : Address) (n : Uint 128) (data : Bytes) :
    M Bytes ω (Option (Uint 256)) := do
  let _ ← .send (.own (.flashLoan T.lender T.this base (toUint256 n) data))
  let s ← .read
  let balance ← .look (T.views.balanceOf · base T.this)
  let cost ← .ofCall (Uint.sub s.init balance)
  .update fun s => { s with init := 0 }
  return some cost

theorem Deal.body_run (h : Deal T E o sender s w w₁ w₂ w₃ w₄ w₅ base fyToken join b fee n out) :
    ((contract T).body o.entry sender).run id (serve T E) s w =
      (borrow T base n (o.data T)).run id (serve T E) { s with init := b } w := by
  have ha := h.authorized
  have hb := h.base₀
  have hn := h.fySold
  cases o
  case sellFYToken =>
    cases hn
    dsimp only [Order.selector, Order.pool] at ha hb
    change (sellFYToken T sender _ _ _).run id (serve T E) s w = _
    rw [sellFYToken, run_auth_bind ha, Code.run_look_bind, hb, Code.run_ok_bind, Code.run_look_bind,
      h.balance, Code.run_ok_bind, Code.run_update_bind]
    rfl
  case buyBase =>
    dsimp only [Order.selector, Order.pool, Order.fySold] at ha hb hn
    change (buyBase T sender _ _ _).run id (serve T E) s w = _
    rw [buyBase, run_auth_bind ha, Code.run_look_bind, hb, Code.run_ok_bind, Code.run_look_bind,
      h.balance, Code.run_ok_bind, Code.run_update_bind, Code.run_look_bind, hn, Code.run_ok_bind]
    rfl

theorem Deal.serve_unauthorized
    (h : Deal T E o sender s w w₁ w₂ w₃ w₄ w₅ base fyToken join b fee n out) {s' : Storage}
    (hs : s'.init = 0) :
    serve T E (.own (.flashLoan T.lender T.this base (toUint256 n) (o.data T))) s' w =
      .error "Unauthorized" := by
  have hc : (onFlashLoan T T.lender base (toUint256 n) (o.data T)).run id (serveCallback T E) s' w₁ =
      .error "Unauthorized" :=
    onFlashLoan_unauthorized hs
  simp only [serve, Msg.request, contract, h.lent, hc, Bind.bind, Except.bind]

theorem Deal.serve_ok (h : Deal T E o sender s w w₁ w₂ w₃ w₄ w₅ base fyToken join b fee n out)
    {s' : Storage} (hs : s'.init ≠ 0) (hr : E.repay w₅ T.this base (toUint256 n) fee = .ok w₆) :
    serve T E (.own (.flashLoan T.lender T.this base (toUint256 n) (o.data T))) s' w =
      .ok (none, s', w₆) := by
  simp only [serve, Msg.request, contract, h.lent, h.onFlashLoan_run hs, hr, Call.require, if_true,
    Bind.bind, Except.bind, Pure.pure, Except.pure]

-- What is to hold after a trade, if there is enough base to repay the loan.
def Completes (T : Setting Bytes ω) (E : Env ω Bytes) (o : Order) (sender : Address) (s : Storage)
    (w : ω) (base : Address) (b : Uint 256) : Prop :=
  ∃ cost left s' w', ((contract T).body o.entry sender).run id (serve T E) s w =
    .ok (some cost, s', w') ∧ T.views.balanceOf w' base T.this = .ok left ∧
    (cost : ℕ) + left = b ∧ s'.init = 0

-- A trade completes, unless the Trader is empty before it, or has gained from it.
theorem completes_iff (h : Deal T E o sender s w w₁ w₂ w₃ w₄ w₅ base fyToken join b fee n out)
    (hl : (n : ℕ) + fee ≤ b + out) :
    Completes T E o sender s w base b ↔ 0 < (b : ℕ) ∧ out ≤ n + fee := by
  obtain ⟨x, hx, he⟩ := h.balance_swapped
  obtain ⟨w₆, hr, hm⟩ := h.repays x hx (he ▸ hl)
  obtain ⟨_, left, hx', hl', hm⟩ := hm
  cases hx.symm.trans hx'
  rw [Completes, h.body_run]
  by_cases hb : b = 0
  case pos =>
    have hs : ({ s with init := b } : Storage).init = 0 := hb
    rw [borrow, Code.run_send_error_bind (h.serve_unauthorized hs), hb]
    simp
  case neg =>
    have hs : ({ s with init := b } : Storage).init ≠ 0 := hb
    have hb : 0 < (b : ℕ) := Nat.pos_of_ne_zero fun hz => hb (Fin.ext hz)
    rw [borrow, Code.run_send_bind (h.serve_ok hs hr), Code.run_read_bind, Code.run_look_bind, hl',
      Code.run_ok_bind]
    by_cases ho : out ≤ n + fee
    case pos =>
      obtain ⟨cost, hc⟩ := Uint.exists_sub (show left ≤ b from Fin.le_def.mpr (by omega))
      rw [Uint.sub_eq_ok.mpr hc, Code.run_ok_bind, Code.run_update_bind, Code.run_pure]
      exact iff_of_true ⟨cost, left, _, _, rfl, hl', hc, rfl⟩ ⟨hb, ho⟩
    case neg =>
      have hp : Uint.sub b left = .error Uint.panic :=
        if_neg fun hle => absurd (Fin.le_def.mp hle) (by omega)
      rw [hp, Code.run_error_bind]
      exact iff_of_false (by simp) fun h => ho h.right

namespace Sale

-- All that changes in this world is the balance of the Trader, in the base 20 of the pool 10.
abbrev World := Uint 256

abbrev Data := Trade × Address × Uint 128 × Uint 128

def setting : Setting Data World where
  this   := 1
  lender := 3
  abi    := ⟨fun trade pool baseOut limit => (trade, pool, baseOut, limit), .ok⟩
  views  := {
    balanceOf w _ _      := .ok w
    base _ _             := .ok 20
    fyToken _ _          := .ok 30
    buyBasePreview _ _ n := .ok n
    join _ _             := .ok 40
    underlyingId _ _     := .ok 60
    asset _ _            := .ok 20
    pool _ _             := .ok 10
    nextPool _ _         := .ok 10
    baseId _ _           := .ok 60
    joins _ _ _          := .ok 40
    pools _ _ _          := .ok 10
  }

-- The pool pays `out` for whatever it is sold.
def env (fee out : Uint 256) : Env World Data where
  lend w _ _ amount      := .ok (fee, w + amount)
  repay w _ _ amount fee := if (amount : ℕ) + fee ≤ w then .ok (w - amount - fee) else .error ""
  perform w _ r          :=
    match r with
    | .safeTransfer _ _ n => .ok (w - n)
    | .sellFYToken ..     => .ok (w + out)
    | _                   => .ok w

def order : Order :=
  .sellFYToken 10 50 0

theorem add_val {a b : Uint 256} (h : (a : ℕ) + b < 2 ^ 256) : ((a + b : Uint 256) : ℕ) = a + b := by
  rw [Fin.val_add, Nat.mod_eq_of_lt h]

theorem deal {b fee out : Uint 256} (hb : (b : ℕ) + 50 < 2 ^ 256) (ho : (b : ℕ) + out < 2 ^ 256) :
    Deal setting (env fee out) order 7 (created 7) b (b + 50) (b + 50) b b (b + out) 20 30 40 b fee 50
      out where
  authorized := by decide
  base₀      := rfl
  balance    := rfl
  fySold     := rfl
  lent       := rfl
  lends      := ⟨_, _, rfl, rfl, @add_val b 50 hb⟩
  decoded    := rfl
  fyToken₁   := rfl
  base₁      := rfl
  join₁      := rfl
  approved   := rfl
  approves   := ⟨_, _, rfl, rfl, rfl⟩
  funded     := congrArg Except.ok (add_sub_cancel_right b 50)
  funds      := ⟨_, _, rfl, rfl, (@add_val b 50 hb).symm⟩
  minted     := rfl
  mints      := ⟨_, _, rfl, rfl, rfl⟩
  swapped    := rfl
  swaps      := ⟨_, _, rfl, rfl, add_val ho⟩
  repays x hx hl := by
    cases hx
    have h₁ : ((50 : Uint 128) : ℕ) = 50 := rfl
    have h₂ : ((50 : Uint 256) : ℕ) = 50 := rfl
    refine ⟨b + out - 50 - fee, if_pos hl, _, _, rfl, rfl, ?_⟩
    generalize b + out = x at hl ⊢
    have hs : ((x - 50 : Uint 256) : ℕ) = x - 50 := by
      rw [Fin.sub_val_of_le (Fin.le_def.mpr (by omega)), h₂]
    rw [Fin.sub_val_of_le (Fin.le_def.mpr (by omega)), hs]
    omega

end Sale

theorem completes_iff_sale : Completes Sale.setting (Sale.env 1 45) Sale.order 7 (created 7) 100 20
    100 :=
  (completes_iff (Sale.deal (by decide) (by decide)) (by decide)).mpr (by decide)

-- A Trader without base cannot make a trade which costs nothing.
theorem not_completes : ¬∀ (T : Setting Sale.Data Sale.World) (E : Env Sale.World Sale.Data)
    (o : Order) (sender : Address) (s : Storage) (w w₁ w₂ w₃ w₄ w₅ : Sale.World)
    (base fyToken join : Address) (b fee : Uint 256) (n : Uint 128) (out : ℕ),
    Deal T E o sender s w w₁ w₂ w₃ w₄ w₅ base fyToken join b fee n out →
    (n : ℕ) + fee ≤ b + out → Completes T E o sender s w base b := by
  intro h
  have hd := @Sale.deal 0 0 50 (by decide) (by decide)
  obtain ⟨_, _, _, _, hr, _⟩ := h _ _ _ _ _ _ _ _ _ _ _ _ _ _ _ _ _ _ hd (by decide)
  rw [hd.body_run, borrow, Code.run_send_error_bind (hd.serve_unauthorized rfl)] at hr
  cases hr

end Trader
