import YieldModel.FlashLoans.Roller
import YieldModel.FlashLoans.Trades
import YieldModel.Objects.Math

open FlashLoans

namespace Roller

open Math (WAD)

-- Why a roll fails: a contract reverts, or the Join stores less than a redemption takes out of it.
inductive Failure
  | reverts (reason : String)
  | underfunded
  deriving DecidableEq

def lift {α : Type} : Call α → Except Failure α
  | .ok a         => .ok a
  | .error reason => .error (.reverts reason)

-- What the Join of the base stores, what has accrued on the mature fyToken, and the liquidity tokens
-- of strategies and pools. When the strategy has burnt its liquidity tokens and redeemed the fyToken,
-- `divest` is the rest of `endPool`.
structure Redemption (ω : Type) where
  stored    : ω → ℕ
  accrual   : ω → ℕ
  liquidity : ω → (strategy : Address) → ℕ
  supply    : ω → (pool : Address) → ℕ
  divest    : ω → (strategy : Address) → Call ω

variable {Bytes ω : Type}

-- The strategy's share of the fyToken of its pool.
def redeemed (R : Setting Bytes ω) (D : Redemption ω) (w : ω) (strategy : Address) : Call ℕ := do
  let pool ← R.views.pool w strategy
  let fyToken ← R.views.fyToken w pool
  let balance ← R.views.balanceOf w fyToken pool
  return balance * D.liquidity w strategy / D.supply w pool

def endPool (R : Setting Bytes ω) (D : Redemption ω) (w : ω) (strategy : Address) :
    Except Failure ω := do
  let n ← lift (redeemed R D w strategy)
  if n * D.accrual w / WAD ≤ D.stored w then lift (D.divest w strategy) else .error .underfunded

-- The requests of `onFlashLoan`.
def serveCallback (R : Setting Bytes ω) (E : Env ω Bytes) (D : Redemption ω) (k : Msg Bytes)
    (s : Storage) (w : ω) : Except Failure (Option (Uint 256) × Storage × ω) :=
  match k.request with
  | .endPool strategy => do
    let w ← endPool R D w strategy
    return (none, s, w)
  | r => do
    let w ← lift (E.perform w R.this r)
    return (none, s, w)

-- The lender calls `onFlashLoan` between paying out the loan and taking it back.
def serve (R : Setting Bytes ω) (E : Env ω Bytes) (D : Redemption ω) (k : Msg Bytes)
    (s : Storage) (w : ω) : Except Failure (Option (Uint 256) × Storage × ω) :=
  match k.request with
  | .flashLoan lender receiver token amount data => do
    let (fee, w) ← lift (E.lend w receiver token amount)
    let (r, s, w) ← ((contract R).body (.onFlashLoan receiver token amount fee data) lender).run
      .reverts (serveCallback R E D) s w
    lift (Call.require (r = some CALLBACK_SUCCESS) "FlashLoan: callback failed")
    let w ← lift (E.repay w receiver token amount fee)
    return (none, s, w)
  | _ => serveCallback R E D k s w

-- A step of the roll adds `n` to what the Join stores, and leaves the redemption as it is.
structure Funds (R : Setting Bytes ω) (D : Redemption ω) (strategy : Address) (w : ω) (n : ℕ)
    (w' : ω) : Prop where
  stored   : D.stored w' = D.stored w + n
  accrual  : D.accrual w' = D.accrual w
  redeemed : redeemed R D w' strategy = redeemed R D w strategy

-- What the other contracts do before the pool is ended: the strategy is active, the lender grants the
-- loan, and the loan is used to mint fyToken of the next pool.
structure Approach (R : Setting Bytes ω) (E : Env ω Bytes) (D : Redemption ω) (sender : Address)
    (s : Storage) (w w₁ w₂ w₃ : ω) (strategy lender pool base fyToken join next nextToken : Address)
    (baseId : Bytes6) (toRedeem fee : Uint 256) : Prop where
  authorized  : s.roles.auth selector.roll sender = .ok ()
  strategy_ne : strategy ≠ 0
  pool₀       : R.views.pool w strategy = .ok pool
  pool_ne     : pool ≠ 0
  base₀       : R.views.base w pool = .ok base
  fyToken₀    : R.views.fyToken w pool = .ok fyToken
  toRedeem₀   : R.views.balanceOf w fyToken pool = .ok toRedeem
  lent        : if 0 < toRedeem then E.lend w R.this base toRedeem = .ok (fee, w₁) else w₁ = w
  lends       : Funds R D strategy w 0 w₁
  baseId₁     : R.views.baseId w₁ strategy = .ok baseId
  join₁       : R.views.joins w₁ R.ladle baseId = .ok join
  join_ne     : join ≠ 0
  next₁       : R.views.nextPool w₁ strategy = .ok next
  next_ne     : next ≠ 0
  nextToken₁  : R.views.fyToken w₁ next = .ok nextToken
  funded      : 0 < toRedeem → E.perform w₁ R.this (.safeTransfer base join toRedeem) = .ok w₂
  funds       : 0 < toRedeem → Funds R D strategy w₁ 0 w₂
  minted      : 0 < toRedeem →
                E.perform w₂ R.this (.mintWithUnderlying nextToken R.this toRedeem) = .ok w₃
  mints       : 0 < toRedeem → Funds R D strategy w₂ toRedeem w₃

-- The part of `onFlashLoan` which rolls the pool.
def rollPool (R : Setting Bytes ω) (sender token strategy pool fyToken : Address)
    (amount fee : Uint 256) : M Bytes ω (Option (Uint 256)) := do
  let _ ← .send (.callback sender (.endPool strategy))
  let _ ← .send (.callback sender (.startPool strategy 0 (.max 256)))
  if 0 < amount then
    let _ ← .send (.callback sender (.transfer fyToken pool amount))
    let _ ← .send (.callback sender (.sellFYToken pool R.this 0))
    let repayment ← .ofCall (Uint.add amount fee)
    let _ ← .send (.callback sender (.approve token sender repayment))
  return some CALLBACK_SUCCESS

-- The part of `onFlashLoan` which makes calls.
def fundAndRoll (R : Setting Bytes ω) (sender token strategy join pool fyToken : Address)
    (amount fee : Uint 256) : M Bytes ω (Option (Uint 256)) := do
  if 0 < amount then
    let _ ← .send (.callback sender (.safeTransfer token join amount))
    let _ ← .send (.callback sender (.mintWithUnderlying fyToken R.this amount))
  rollPool R sender token strategy pool fyToken amount fee

variable {R : Setting Bytes ω} {E : Env ω Bytes} {D : Redemption ω} {s : Storage}
  {sender strategy lender pool base fyToken join next nextToken remainder token : Address}
  {w w₁ w₂ w₃ : ω} {baseId : Bytes6} {toRedeem fee maxLoan amount : Uint 256}

theorem lift_eq_ok {α : Type} {x : Call α} {a : α} (h : x = .ok a) : lift x = .ok a := by
  rw [h]
  rfl

theorem lift_ne_underfunded {α : Type} (x : Call α) : lift x ≠ .error .underfunded := by
  cases x <;> simp [lift]

theorem bind_ne_underfunded {α β : Type} {x : Except Failure α} {f : α → Except Failure β}
    (hx : x ≠ .error .underfunded) (hf : ∀ a, f a ≠ .error .underfunded) :
    (x >>= f) ≠ .error .underfunded := by
  cases x
  case error e => exact fun he => hx (congrArg _ (Except.error.inj he))
  case ok a    => exact hf a

-- What the callback finds out before it makes a call is known.
theorem onFlashLoan_run
    {v : Msg Bytes → Storage → ω → Except Failure (Option (Uint 256) × Storage × ω)}
    (h : Approach R E D sender s w w₁ w₂ w₃ strategy lender pool base fyToken join next nextToken
      baseId toRedeem fee) {a : Address} {n f : Uint 256} {s' : Storage}
    (hs : s'._strategy = strategy) :
    (onFlashLoan R a base n f).run .reverts v s' w₁ =
      (fundAndRoll R a base strategy join next nextToken n f).run .reverts v s' w₁ := by
  rw [onFlashLoan, Code.run_read_bind, Code.run_require_bind (hs ▸ h.strategy_ne),
    Code.run_look_bind, hs, h.baseId₁, Code.run_ok_bind, Code.run_look_bind, h.join₁,
    Code.run_ok_bind, Code.run_require_bind h.join_ne, Code.run_look_bind, h.next₁,
    Code.run_ok_bind, Code.run_require_bind h.next_ne, Code.run_look_bind, h.nextToken₁,
    Code.run_ok_bind]
  rfl

theorem onFlashLoan_with_loan
    (h : Approach R E D sender s w w₁ w₂ w₃ strategy lender pool base fyToken join next nextToken
      baseId toRedeem fee) (hl : 0 < toRedeem) {s' : Storage} (hs : s'._strategy = strategy) :
    (onFlashLoan R lender base toRedeem fee).run .reverts (serveCallback R E D) s' w₁ =
      (rollPool R lender base strategy next nextToken toRedeem fee).run .reverts
        (serveCallback R E D) s' w₃ := by
  have hf : serveCallback R E D (.callback lender (.safeTransfer base join toRedeem)) s' w₁ =
      .ok (none, s', w₂) := by
    simp only [serveCallback, Msg.request, h.funded hl]
    rfl
  have hm : serveCallback R E D (.callback lender (.mintWithUnderlying nextToken R.this toRedeem)) s' w₂ =
      .ok (none, s', w₃) := by
    simp only [serveCallback, Msg.request, h.minted hl]
    rfl
  rw [onFlashLoan_run h hs, fundAndRoll]
  simp only [if_pos hl]
  rw [Code.run_send_bind hf, Code.run_send_bind hm]

-- A request which is neither a loan nor the end of a pool.
def Plain (r : Request Bytes) : Prop :=
  (∀ strategy, r ≠ .endPool strategy) ∧
  ∀ lender receiver token amount data, r ≠ .flashLoan lender receiver token amount data

theorem serveCallback_ne {k : Msg Bytes} (h : Plain k.request) :
    serveCallback R E D k s w ≠ .error .underfunded := by
  rw [serveCallback]
  split
  case h_1 strategy he => exact absurd he (h.left strategy)
  case h_2             => exact bind_ne_underfunded (lift_ne_underfunded _) fun _ he => by cases he

theorem serve_ne {k : Msg Bytes} (h : Plain k.request) :
    serve R E D k s w ≠ .error .underfunded := by
  rw [serve]
  split
  case h_1 he => exact absurd he (h.right _ _ _ _ _)
  case h_2    => exact serveCallback_ne h

-- Both within the loan and without one, the roll of the pool fails for lack of funds only if the end
-- of the old pool does.
theorem rollPool_underfunded_iff
    {v : Msg Bytes → Storage → ω → Except Failure (Option (Uint 256) × Storage × ω)} {a : Address}
    (he : ∀ s w, v (.callback a (.endPool strategy)) s w =
      serveCallback R E D (.callback a (.endPool strategy)) s w)
    (hp : ∀ k s w, Plain k.request → v k s w ≠ .error .underfunded) :
    (rollPool R a token strategy next nextToken amount fee).run .reverts v s w =
      .error .underfunded ↔ endPool R D w strategy = .error .underfunded := by
  rw [rollPool]
  have hs := he s w
  simp only [serveCallback, Msg.request] at hs
  cases hx : endPool R D w strategy
  case error e =>
    rw [hx] at hs
    rw [Code.run_send_error_bind hs]
    simp
  case ok w' =>
    rw [hx] at hs
    rw [Code.run_send_bind hs]
    refine iff_of_false ?_ (by simp)
    apply Code.Meets.run_ne (P := fun k => Plain k.request) s (fun _ => by simp) hp
    simp only [Code.meets_bind, Code.meets_send]
    refine ⟨by simp [Plain, Msg.request], fun _ _ _ => ?_⟩
    split
    case isFalse => exact Code.meets_pure.mpr trivial
    case isTrue =>
      simp only [Code.meets_bind, Code.meets_send, Code.meets_ofCall, Code.meets_pure]
      simp [Plain, Msg.request]

-- What remains to be done once the pool has been rolled.
def finish (R : Setting Bytes ω) (base remainder : Address) : M Bytes ω (Option (Uint 256)) := do
  let balance ← .look (R.views.balanceOf · base R.this)
  let _ ← .send (.own (.safeTransfer base remainder balance))
  .update fun s => { s with _strategy := 0 }
  return none

theorem finish_ne :
    (finish R base remainder).run .reverts (serve R E D) s w ≠ .error .underfunded := by
  apply Code.Meets.run_ne (P := fun k => Plain k.request) s (fun _ => by simp)
    (fun _ _ _ => serve_ne)
  simp only [finish, Code.meets_bind, Code.meets_look, Code.meets_send, Code.meets_update,
    Code.meets_pure]
  simp [Plain, Msg.request]

theorem bind_finish_iff {c : M Bytes ω (Option (Uint 256))} :
    (c >>= fun _ => finish R base remainder).run .reverts (serve R E D) s w = .error .underfunded ↔
      c.run .reverts (serve R E D) s w = .error .underfunded := by
  rw [Code.run_bind]
  cases c.run .reverts (serve R E D) s w
  case error e => simp [Except.bind]
  case ok x    => exact iff_of_false finish_ne (by simp)

theorem Approach.redeemed_eq
    (h : Approach R E D sender s w w₁ w₂ w₃ strategy lender pool base fyToken join next nextToken
      baseId toRedeem fee) : redeemed R D w strategy =
      .ok (toRedeem * D.liquidity w strategy / D.supply w pool) := by
  simp only [redeemed, h.pool₀, h.fyToken₀, h.toRedeem₀, Bind.bind, Except.bind, Pure.pure,
    Except.pure]

-- The loan has been paid into the Join before the pool is ended.
theorem endPool_underfunded_iff {n m : ℕ} (hn : redeemed R D w strategy = .ok n)
    (hf : Funds R D strategy w m w₁) : endPool R D w₁ strategy = .error .underfunded ↔
      ¬n * D.accrual w / WAD ≤ D.stored w + m := by
  rw [endPool, lift_eq_ok (hf.redeemed.trans hn), hf.accrual, hf.stored]
  change (if _ then _ else _ : Except Failure ω) = _ ↔ _
  split
  case isTrue hl  => exact iff_of_false (lift_ne_underfunded _) (not_not.mpr hl)
  case isFalse hl => exact iff_of_true rfl hl

theorem Funds.trans {n m : ℕ} (h : Funds R D strategy w n w₁) (h' : Funds R D strategy w₁ m w₂) :
    Funds R D strategy w (n + m) w₂ where
  stored   := by rw [h'.stored, h.stored, add_assoc]
  accrual  := h'.accrual.trans h.accrual
  redeemed := h'.redeemed.trans h.redeemed

theorem serve_flashLoan_iff
    (h : Approach R E D sender s w w₁ w₂ w₃ strategy lender pool base fyToken join next nextToken
      baseId toRedeem fee) (hl : 0 < toRedeem) {s' : Storage} (hs : s'._strategy = strategy) :
    serve R E D (.own (.flashLoan lender R.this base toRedeem R.empty)) s' w = .error .underfunded ↔
      ¬toRedeem * D.liquidity w strategy / D.supply w pool * D.accrual w / WAD ≤
        D.stored w + toRedeem := by
  have hf := (h.lends.trans (h.funds hl)).trans (h.mints hl)
  rw [zero_add, zero_add] at hf
  rw [← endPool_underfunded_iff h.redeemed_eq hf,
    ← rollPool_underfunded_iff (v := serveCallback R E D) (fun _ _ => rfl)
      (fun _ _ _ => serveCallback_ne), ← onFlashLoan_with_loan h hl hs]
  have he := h.lent
  rw [if_pos hl] at he
  simp only [serve, Msg.request, contract, lift_eq_ok he]
  change ((onFlashLoan R lender base toRedeem fee).run .reverts (serveCallback R E D) s' w₁ >>=
    _) = _ ↔ _
  cases (onFlashLoan R lender base toRedeem fee).run .reverts (serveCallback R E D) s' w₁
  case error => exact Iff.rfl
  case ok =>
    refine iff_of_false ?_ (by simp)
    exact bind_ne_underfunded (by simp) fun _ => bind_ne_underfunded (lift_ne_underfunded _) fun _ =>
      bind_ne_underfunded (lift_ne_underfunded _) fun _ he => by cases he

theorem roll_run
    (h : Approach R E D sender s w w₁ w₂ w₃ strategy lender pool base fyToken join next nextToken
      baseId toRedeem fee) (hm : toRedeem ≤ maxLoan) :
    (roll R sender strategy maxLoan lender remainder).run .reverts (serve R E D) s w =
      ((if 0 < toRedeem then
          Code.send (.own (.flashLoan lender R.this base toRedeem R.empty))
        else onFlashLoan R R.this base 0 0) >>= fun _ => finish R base remainder).run .reverts
        (serve R E D) { s with _strategy := strategy } w := by
  rw [roll, Code.run_read_bind, h.authorized, Code.run_ok_bind, Code.run_look_bind, h.pool₀,
    Code.run_ok_bind, Code.run_require_bind h.pool_ne, Code.run_look_bind, h.base₀,
    Code.run_ok_bind, Code.run_look_bind, h.fyToken₀, Code.run_ok_bind, Code.run_look_bind,
    h.toRedeem₀, Code.run_ok_bind]
  simp only [if_neg (not_lt_of_ge hm)]
  rw [Code.run_update_bind]
  by_cases hl : 0 < toRedeem
  case pos =>
    simp only [if_pos hl]
    rfl
  case neg =>
    simp only [if_neg hl]
    rfl

theorem roll_underfunded_iff
    (h : Approach R E D sender s w w₁ w₂ w₃ strategy lender pool base fyToken join next nextToken
      baseId toRedeem fee) (hm : toRedeem ≤ maxLoan) :
    (roll R sender strategy maxLoan lender remainder).run .reverts (serve R E D) s w =
      .error .underfunded ↔
    ¬toRedeem * D.liquidity w strategy / D.supply w pool * D.accrual w / WAD ≤
      D.stored w + toRedeem := by
  rw [roll_run h hm, bind_finish_iff]
  by_cases hl : 0 < toRedeem
  case pos =>
    rw [if_pos hl, Code.run_send_eq_error]
    exact serve_flashLoan_iff h hl rfl
  case neg =>
    have hz : toRedeem = 0 := Fin.ext (Nat.eq_zero_of_not_pos hl)
    have hw := h.lent
    rw [if_neg hl] at hw
    subst hw
    rw [if_neg hl, onFlashLoan_run h rfl, fundAndRoll, if_neg (lt_irrefl 0),
      rollPool_underfunded_iff (E := E) (v := serve R E D) (fun _ _ => rfl)
        (fun _ _ _ => serve_ne),
      endPool_underfunded_iff h.redeemed_eq h.lends, hz]
    rfl

-- The loan is as large as the number of fyTokens which can be redeemed, whatever they have accrued.
-- So the Join can pay the redemption only if it has stored the rest before.
theorem roll_funded_iff
    (h : Approach R E D sender s w w₁ w₂ w₃ strategy lender pool base fyToken join next nextToken
      baseId toRedeem fee) (hm : toRedeem ≤ maxLoan) :
    ((contract R).body (.roll strategy maxLoan lender remainder) sender).run .reverts (serve R E D)
        s w ≠ .error .underfunded ↔
      toRedeem * D.liquidity w strategy / D.supply w pool * D.accrual w / WAD ≤
        D.stored w + toRedeem :=
  (roll_underfunded_iff h hm).not.trans not_not

namespace Matured

-- All that changes in this world is what the Join stores. The strategy owns the whole pool, which
-- holds 100 fyTokens, and since their maturity 10 percent have accrued.
abbrev World := ℕ

def setting : Setting Unit World where
  this  := 1
  ladle := 2
  empty := ()
  views := {
    balanceOf _ _ _      := .ok 100
    base _ _             := .ok 20
    fyToken _ _          := .ok 30
    buyBasePreview _ _ n := .ok n
    join _ _             := .ok 40
    underlyingId _ _     := .ok 60
    asset _ _            := .ok 20
    pool _ _             := .ok 10
    nextPool _ _         := .ok 11
    baseId _ _           := .ok 60
    joins _ _ _          := .ok 40
    pools _ _ _          := .ok 10
  }

def env : Env World Unit where
  lend w _ _ _    := .ok (0, w)
  repay w _ _ _ _ := .ok w
  perform w _ r   :=
    match r with
    | .mintWithUnderlying _ _ n => .ok (w + n)
    | _                         => .ok w

def redemption : Redemption World where
  stored w      := w
  accrual _     := 1100000000000000000
  liquidity _ _ := 5000
  supply _ _    := 5000
  divest w _    := .ok w

def storage : Storage where
  roles     := (created 7).roles._grantRole selector.roll 7
  _strategy := 0

theorem approach (w : World) : Approach setting env redemption 7 storage w w w (w + 100) 50 3 10 20 30
    40 11 30 60 100 0 where
  authorized  := by decide
  strategy_ne := by decide
  pool₀       := rfl
  pool_ne     := by decide
  base₀       := rfl
  fyToken₀    := rfl
  toRedeem₀   := rfl
  lent        := rfl
  lends       := ⟨rfl, rfl, rfl⟩
  baseId₁     := rfl
  join₁       := rfl
  join_ne     := by decide
  next₁       := rfl
  next_ne     := by decide
  nextToken₁  := rfl
  funded _    := rfl
  funds _     := ⟨rfl, rfl, rfl⟩
  minted _    := rfl
  mints _     := ⟨rfl, rfl, rfl⟩

end Matured

theorem roll_funded_iff_matured :
    ((contract Matured.setting).body (.roll 50 100 3 8) 7).run .reverts
      (serve Matured.setting Matured.env Matured.redemption) Matured.storage 10 ≠
      .error .underfunded :=
  (roll_funded_iff (Matured.approach 10) (le_refl 100)).mpr (by decide)

-- Without a reserve, the accrual cannot be paid.
theorem not_roll_funded : ¬∀ (R : Setting Unit ℕ) (E : Env ℕ Unit) (D : Redemption ℕ)
    (sender : Address) (s : Storage) (w w₁ w₂ w₃ : ℕ)
    (strategy lender pool base fyToken join next nextToken remainder : Address) (baseId : Bytes6)
    (toRedeem fee maxLoan : Uint 256),
    Approach R E D sender s w w₁ w₂ w₃ strategy lender pool base fyToken join next nextToken baseId
      toRedeem fee →
    toRedeem ≤ maxLoan → WAD ≤ D.accrual w → D.liquidity w strategy ≤ D.supply w pool →
    ((contract R).body (.roll strategy maxLoan lender remainder) sender).run .reverts (serve R E D)
      s w ≠ .error .underfunded := by
  intro h
  apply h _ _ _ _ _ _ _ _ _ _ _ _ _ _ _ _ _ 8 _ _ _ 100 (Matured.approach 0) (le_refl 100)
    (by decide) (by decide)
  exact (roll_underfunded_iff (Matured.approach 0) (le_refl 100)).mpr (by decide)

end Roller
