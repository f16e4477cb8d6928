import YieldModel.Lib.Pot
import YieldModel.Strategy.Basic

open Execution

namespace StrategyV1

variable {this to_ : Address} {s s' s₁ s₂ : State} {ctx : Context} {m w n b : ℕ}

def State.balanceOf (s : State) (token a : Address) : ℕ :=
  (s.tokens token).balanceOf a

-- The assets which belong to the holders of shares.
def State.backing (this : Address) (s : State) : ℕ :=
  if s.strategy.pool = 0 then s.balanceOf s.strategy.base this else s.strategy.cached

def State.pot (this : Address) (s : State) : Pot where
  assets := s.backing this
  supply := s.strategy.shares.totalSupply

-- Shares which have been left on the strategy are burnt by the next call of `burn`.
def State.stray (this : Address) (s : State) : ℕ :=
  s.strategy.shares.balanceOf this

theorem backing_selected (h : s.strategy.pool ≠ 0) : s.backing this = s.strategy.cached :=
  if_neg h

theorem backing_not_selected (h : s.strategy.pool = 0) :
    s.backing this = s.balanceOf s.strategy.base this :=
  if_pos h

structure State.Mints (this : Address) (s : State) (to_ : Address) (m : ℕ) (s' : State) : Prop where
  selected : s.strategy.pool ≠ 0
  cached   : 0 < (s.strategy.cached : ℕ)
  deposit  : s.strategy.cached ≤ s.balanceOf s.strategy.pool this
  minted   : m = (s.pot this).minted (s.balanceOf s.strategy.pool this - s.strategy.cached)
  backing  : (s'.strategy.cached : ℕ) = s.balanceOf s.strategy.pool this
  shares   : s.strategy.shares.Mints to_ m s'.strategy.shares
  pool     : s'.strategy.pool = s.strategy.pool
  tokens   : s'.tokens = s.tokens

theorem div_eq_ok {a b c : ℕ} : div a b = .ok c ↔ b ≠ 0 ∧ c = a / b := by
  simp [div, Call.map_eq_ok, Call.require_eq_ok, @eq_comm _ _ c]

theorem mint_eq_ok (h : mint this s to_ = .ok (s', m)) : s.Mints this to_ m s' := by
  simp only [mint, poolSelected, Call.bind_eq_ok, Call.require_eq_ok, Uint.diff_eq_ok,
    Uint.cast_eq_ok, div_eq_ok, Call.pure_eq_ok, Prod.mk.injEq] at h
  obtain ⟨_, hp, d, hd, x, hx, _, ⟨hc, rfl⟩, c, hc', l, hl, rfl, rfl⟩ := h
  exact {
    selected := hp
    cached   := Nat.pos_of_ne_zero hc
    deposit  := by simp only [State.balanceOf]; omega
    minted   := by
      rw [Pot.minted, State.pot, backing_selected hp, State.balanceOf, ← hd, hx]
      simp
    backing  := by simp only [State.balanceOf]; omega
    shares   := Ledger.mint_eq_ok hl
    pool     := rfl
    tokens   := rfl
  }

-- Both ways of redeeming shares: `token` is what they are redeemed for.
structure State.Redeems (this : Address) (s : State) (token to_ : Address) (w : ℕ) (s' : State) :
    Prop where
  supply    : 0 < (s.strategy.shares.totalSupply : ℕ)
  withdrawn : w = (s.pot this).worth (s.stray this)
  shares    : s.strategy.shares.Burns this (s.stray this) s'.strategy.shares
  pool      : s'.strategy.pool = s.strategy.pool
  base      : s'.strategy.base = s.strategy.base
  sent      : ∃ l, (s.tokens token).Transfers this to_ w l ∧
              s'.tokens = Function.update s.tokens token l

theorem safeTransfer_eq_ok {t t' : Tokens} {token src dst : Address}
    (h : t.safeTransfer token src dst n = .ok t') :
    ∃ l, (t token).Transfers src dst n l ∧ t' = Function.update t token l := by
  simp only [Tokens.safeTransfer, Call.bind_eq_ok, Call.pure_eq_ok] at h
  obtain ⟨l, hl, rfl⟩ := h
  exact ⟨l, Ledger.transfer_eq_ok hl, rfl⟩

theorem burn_eq_ok (h : burn this s to_ = .ok (s', w)) : s.strategy.pool ≠ 0 ∧
    s.Redeems this s.strategy.pool to_ w s' ∧ (s'.strategy.cached : ℕ) + w = s.strategy.cached := by
  simp only [burn, poolSelected, Call.bind_eq_ok, Call.require_eq_ok, Uint.diff_eq_ok,
    Uint.cast_eq_ok, div_eq_ok, Call.pure_eq_ok, Prod.mk.injEq] at h
  obtain ⟨_, hp, x, hx, _, ⟨hs, rfl⟩, c, hc, c', hc', l, hl, t, ht, rfl, rfl⟩ := h
  refine ⟨hp, ?_, by dsimp only; omega⟩
  exact {
    supply    := Nat.pos_of_ne_zero hs
    withdrawn := by rw [Pot.worth, State.pot, backing_selected hp, State.stray, hx]
    shares    := Ledger.burn_eq_ok hl
    pool      := rfl
    base      := rfl
    sent      := safeTransfer_eq_ok ht
  }

theorem burnForBase_eq_ok (h : burnForBase this s to_ = .ok (s', w)) :
    s.strategy.pool = 0 ∧ s.Redeems this s.strategy.base to_ w s' := by
  simp only [burnForBase, poolNotSelected, Call.bind_eq_ok, Call.require_eq_ok,
    Uint.cast_eq_ok, div_eq_ok, Call.pure_eq_ok, Prod.mk.injEq] at h
  obtain ⟨_, hp, x, hx, _, ⟨hs, rfl⟩, l, hl, t, ht, rfl, rfl⟩ := h
  refine ⟨hp, ?_⟩
  exact {
    supply    := Nat.pos_of_ne_zero hs
    withdrawn := by
      rw [Pot.worth, State.pot, backing_not_selected hp, State.stray, hx]
      rfl
    shares    := Ledger.burn_eq_ok hl
    pool      := rfl
    base      := rfl
    sent      := safeTransfer_eq_ok ht
  }

theorem transferFrom_eq_ok {src dst : Address} (h : transferFrom s ctx src dst n = .ok s') :
    ∃ l, s.strategy.shares.Transfers src dst n l ∧ s' = { s with strategy.shares := l } := by
  simp only [transferFrom, Call.bind_eq_ok, Call.pure_eq_ok] at h
  obtain ⟨_, -, l, hl, rfl⟩ := h
  exact ⟨l, Ledger.transfer_eq_ok hl, rfl⟩

-- The functions of governance which leave the funds where they are.
structure State.Configures (s s' : State) : Prop where
  tokens : s'.tokens = s.tokens
  shares : s'.strategy.shares = s.strategy.shares
  cached : s'.strategy.cached = s.strategy.cached
  pool   : s'.strategy.pool = s.strategy.pool
  base   : s'.strategy.base = s.strategy.base

theorem setYield_eq_ok {ladle_ : Address} (h : setYield s ctx ladle_ = .ok s') :
    s.Configures s' := by
  simp only [setYield, Call.bind_eq_ok, Call.pure_eq_ok] at h
  obtain ⟨_, -, _, -, _, -, rfl⟩ := h
  exact ⟨rfl, rfl, rfl, rfl, rfl⟩

theorem setTokenId_eq_ok {baseId_ : Bytes6} (h : setTokenId s ctx baseId_ = .ok s') :
    s.Configures s' := by
  simp only [setTokenId, Call.bind_eq_ok, Call.pure_eq_ok] at h
  obtain ⟨_, -, _, -, _, -, _, -, _, -, rfl⟩ := h
  exact ⟨rfl, rfl, rfl, rfl, rfl⟩

theorem resetTokenJoin_eq_ok (h : resetTokenJoin s ctx = .ok s') : s.Configures s' := by
  simp only [resetTokenJoin, Call.bind_eq_ok, Call.pure_eq_ok] at h
  obtain ⟨_, -, _, -, _, -, rfl⟩ := h
  exact ⟨rfl, rfl, rfl, rfl, rfl⟩

theorem setNextPool_eq_ok {pool_ : Address} {seriesId_ : Bytes6}
    (h : setNextPool s ctx pool_ seriesId_ = .ok s') : s.Configures s' := by
  simp only [setNextPool, Call.bind_eq_ok, Call.pure_eq_ok] at h
  obtain ⟨_, -, _, -, _, -, _, -, _, -, _, -, rfl⟩ := h
  exact ⟨rfl, rfl, rfl, rfl, rfl⟩

-- A pool credits the liquidity tokens which it returns as minted.
def Context.Credits (ctx : Context) : Prop :=
  ∀ t pool a remainder minRatio maxRatio t' n,
    ctx.poolMint t pool a remainder minRatio maxRatio = .ok (t', n) →
    (t' pool).balanceOf a = (t pool).balanceOf a + n

theorem startPool_eq_ok {minRatio maxRatio : Uint 256}
    (h : startPool this s ctx minRatio maxRatio = .ok s') :
    s.strategy.pool = 0 ∧ s'.strategy.pool ≠ 0 ∧
    ∃ t remainder, ctx.poolMint t s'.strategy.pool this remainder minRatio maxRatio =
      .ok (s'.tokens, s'.strategy.cached) := by
  simp only [startPool, poolNotSelected, Call.bind_eq_ok, Call.require_eq_ok, Call.pure_eq_ok,
    Prod.exists] at h
  obtain ⟨_, -, _, hp, _, hn, _, -, _, -, _, -, _, -, _, -, _, -, _, -, _, -, t, -, _, _, hm, _, -,
    _, -, rfl⟩ := h
  exact ⟨hp, hn, t, this, hm⟩

theorem endPool_eq_ok (h : endPool this s ctx = .ok s') :
    s.strategy.pool ≠ 0 ∧ s'.strategy.pool = 0 := by
  simp only [endPool, callable, Call.bind_eq_ok, Call.require_eq_ok, Call.pure_eq_ok,
    Prod.exists] at h
  obtain ⟨_, -, _, hp, _, -, _, _, -, _, -, _, -, rfl⟩ := h
  exact ⟨hp, rfl⟩

theorem State.Mints.pot_step (h : s.Mints this to_ m s') : (s.pot this).Step (s'.pot this) := by
  have hb : s.backing this = _ := backing_selected h.selected
  have hb' : s'.backing this = _ := backing_selected (h.pool ▸ h.selected)
  refine .deposit (by simpa only [State.pot, hb] using h.cached) ?_ (h.minted ▸ h.shares.supply)
  have := h.backing
  have := h.deposit
  simp only [State.pot, hb, hb']
  omega

theorem State.Redeems.pot_step {token : Address} (h : s.Redeems this token to_ w s')
    (hb : s.backing this ≤ s'.backing this + w) : (s.pot this).Step (s'.pot this) :=
  .withdraw h.supply (h.withdrawn ▸ hb) h.shares.supply

theorem State.Configures.pot_step (h : s.Configures s') : (s.pot this).Step (s'.pot this) := by
  have he : s'.pot this = s.pot this := by
    simp only [State.pot, State.backing, State.balanceOf, h.pool, h.base, h.cached, h.tokens,
      h.shares]
  exact he ▸ .idle

theorem State.Redeems.balanceOf_le {token : Address} (h : s.Redeems this token to_ w s') :
    s.balanceOf token this ≤ s'.balanceOf token this + w := by
  have ⟨l, hl, ht⟩ := h.sent
  simpa [State.balanceOf, ht] using hl.le_add

-- While the selection of the pool does not change, a call does to the funds what a pot allows.
theorem exec_pot_step {a : Action} (h : exec this s ctx a = .ok s')
    (hp : s'.strategy.pool = s.strategy.pool) : (s.pot this).Step (s'.pot this) := by
  cases a <;> simp only [exec, Call.map_eq_ok, Prod.exists, exists_and_right, exists_eq_right] at h
  case setYield       => exact (setYield_eq_ok h).pot_step
  case setTokenId     => exact (setTokenId_eq_ok h).pot_step
  case resetTokenJoin => exact (resetTokenJoin_eq_ok h).pot_step
  case setNextPool    => exact (setNextPool_eq_ok h).pot_step
  case startPool =>
    have ⟨hs, hs', _⟩ := startPool_eq_ok h
    exact absurd (hp.trans hs) hs'
  case endPool =>
    have ⟨hs, hs'⟩ := endPool_eq_ok h
    exact absurd (hp.symm.trans hs') hs
  case mint =>
    obtain ⟨_, h⟩ := h
    exact (mint_eq_ok h).pot_step
  case burn =>
    obtain ⟨_, h⟩ := h
    have ⟨hs, h, hc⟩ := burn_eq_ok h
    apply h.pot_step
    rw [backing_selected hs, backing_selected (h.pool ▸ hs)]
    omega
  case burnForBase =>
    obtain ⟨_, h⟩ := h
    have ⟨hs, h⟩ := burnForBase_eq_ok h
    apply h.pot_step
    rw [backing_not_selected hs, backing_not_selected (h.pool ▸ hs), h.base]
    exact h.balanceOf_le
  case transferFrom =>
    have ⟨l, hl, he⟩ := transferFrom_eq_ok h
    have he : s'.pot this = s.pot this := by
      simp only [he, State.pot, State.backing, State.balanceOf, hl.supply]
    exact he ▸ .idle

-- The liquidity tokens which are counted as the strategy's own are there.
def State.Covered (this : Address) (s : State) : Prop :=
  s.strategy.pool ≠ 0 → s.strategy.cached ≤ s.balanceOf s.strategy.pool this

theorem State.Configures.covered (h : s.Configures s') (hc : s.Covered this) :
    s'.Covered this := by
  simpa only [State.Covered, State.balanceOf, h.pool, h.cached, h.tokens] using hc

theorem exec_covered {a : Action} (hm : ctx.Credits) (h : exec this s ctx a = .ok s')
    (hc : s.Covered this) : s'.Covered this := by
  cases a <;> simp only [exec, Call.map_eq_ok, Prod.exists, exists_and_right, exists_eq_right] at h
  case setYield       => exact (setYield_eq_ok h).covered hc
  case setTokenId     => exact (setTokenId_eq_ok h).covered hc
  case resetTokenJoin => exact (resetTokenJoin_eq_ok h).covered hc
  case setNextPool    => exact (setNextPool_eq_ok h).covered hc
  case startPool =>
    intro _
    have ⟨_, _, _, _, h⟩ := startPool_eq_ok h
    have := hm _ _ _ _ _ _ _ _ h
    simp only [State.balanceOf]
    omega
  case endPool => exact fun hp => absurd (endPool_eq_ok h).right hp
  case mint =>
    obtain ⟨_, h⟩ := h
    intro _
    have h := mint_eq_ok h
    rw [h.backing, State.balanceOf, State.balanceOf, h.pool, h.tokens]
  case burn =>
    obtain ⟨_, h⟩ := h
    intro _
    have ⟨hs, h, hw⟩ := burn_eq_ok h
    have := hc hs
    have := h.balanceOf_le
    rw [h.pool]
    omega
  case burnForBase =>
    obtain ⟨_, h⟩ := h
    have ⟨hs, h⟩ := burnForBase_eq_ok h
    exact fun hp => absurd (h.pool ▸ hs) hp
  case transferFrom =>
    have ⟨_, _, he⟩ := transferFrom_eq_ok h
    subst he
    exact hc

-- The steps of an execution: a call, a change of the roles, and any dealings of others in the
-- tokens. Only the strategy itself can spend its tokens, so all that others can do is to donate.
inductive Step (this : Address) : State → State → Prop
  | call {s s' : State} {ctx : Context} {a : Action} :
    ctx.Credits → exec this s ctx a = .ok s' → Step this s s'
  | roles {s : State} (r : AccessControl) : Step this s { s with strategy.roles := r }
  | others {s : State} (t : Tokens) :
    (∀ token, (s.tokens token).balanceOf this ≤ (t token).balanceOf this) →
    Step this s { s with tokens := t }

-- The steps during which one pool, or no pool, stays selected.
def Stays (this : Address) (s s' : State) : Prop :=
  Step this s s' ∧ s'.strategy.pool = s.strategy.pool

theorem step_covered : Preserves (Step this) (·.Covered this) := by
  intro s _ stp hc
  cases stp
  case call hm h    => exact exec_covered hm h hc
  case roles        => exact hc
  case others t ht  => exact fun hp => (hc hp).trans (ht _)

theorem stays_covered : Preserves (Stays this) (·.Covered this) :=
  fun _ _ stp => step_covered stp.left

theorem stays_pot_step (h : Stays this s s') : (s.pot this).Step (s'.pot this) := by
  cases h with | intro stp hp =>
  cases stp
  case call _ h => exact exec_pot_step h hp
  case roles    => exact .idle
  case others t ht =>
    by_cases hs : s.strategy.pool = 0
    case pos =>
      refine .donate rfl ?_
      simpa only [State.pot, State.backing, State.balanceOf, hs, if_true] using ht _
    case neg =>
      have he : State.pot this { s with tokens := t } = s.pot this := by
        simp only [State.pot, State.backing, hs, if_false]
      exact he ▸ .idle

theorem stays_holds (e : Steps (Stays this) s s') : (s.pot this).Holds (s'.pot this) := by
  induction e
  case refl           => exact refl _
  case tail _ stp hi  => exact hi.trans' (stays_pot_step stp).holds

-- How the sender redeems `b` shares: they are sent to the strategy first.
def exit (this : Address) (s : State) (ctx : Context) (b : ℕ) (to_ : Address) :
    Call (State × ℕ) := do
  let s ← transferFrom s ctx ctx.sender this b
  if s.strategy.pool = 0 then burnForBase this s to_ else burn this s to_

theorem safeTransfer_ok {t : Tokens} {token src : Address} (dst : Address)
    (h : n ≤ (t token).balanceOf src) : ∃ t', t.safeTransfer token src dst n = .ok t' := by
  have ⟨l, hl⟩ := Ledger.transfer_ok dst h
  simp only [Tokens.safeTransfer, Call.bind_eq_ok, Call.pure_eq_ok]
  exact ⟨_, l, hl, rfl⟩

theorem burn_ok (to_ : Address) (hp : s.strategy.pool ≠ 0) (hc : s.Covered this)
    (hs : 0 < (s.strategy.shares.totalSupply : ℕ))
    (hx : s.strategy.cached * s.stray this < 2 ^ 256) :
    ∃ s' w, burn this s to_ = .ok (s', w) := by
  have hw := Pot.worth_le_assets (p := s.pot this) (s.strategy.shares.balanceOf_le this)
  have ⟨l, hl⟩ := Ledger.burn_ok (le_refl (s.strategy.shares.balanceOf this))
  rw [State.pot, backing_selected hp] at hw
  have ⟨t, ht⟩ := safeTransfer_ok to_ (hw.trans (hc hp))
  simp only [burn, poolSelected, Call.bind_eq_ok, Call.require_eq_ok, Uint.cast_eq_ok,
    Uint.diff_eq_ok, div_eq_ok, Call.pure_eq_ok, Prod.mk.injEq]
  exact ⟨_, _, (), hp, ⟨_, hx⟩, rfl, _, ⟨hs.ne', rfl⟩, _, Nat.sub_add_cancel hw,
    ⟨_, lt_of_le_of_lt (Nat.sub_le ..) s.strategy.cached.isLt⟩, rfl, l, hl, t, ht, rfl, rfl⟩

theorem burnForBase_ok (to_ : Address) (hp : s.strategy.pool = 0)
    (hs : 0 < (s.strategy.shares.totalSupply : ℕ))
    (hx : s.balanceOf s.strategy.base this * s.stray this < 2 ^ 256) :
    ∃ s' w, burnForBase this s to_ = .ok (s', w) := by
  have hw := Pot.worth_le_assets (p := s.pot this) (s.strategy.shares.balanceOf_le this)
  have ⟨l, hl⟩ := Ledger.burn_ok (le_refl (s.strategy.shares.balanceOf this))
  rw [State.pot, backing_not_selected hp] at hw
  have ⟨t, ht⟩ := safeTransfer_ok to_ hw
  simp only [burnForBase, poolNotSelected, Call.bind_eq_ok, Call.require_eq_ok, Uint.cast_eq_ok,
    div_eq_ok, Call.pure_eq_ok, Prod.mk.injEq]
  exact ⟨_, _, (), hp, ⟨_, hx⟩, rfl, _, ⟨hs.ne', rfl⟩, l, hl, t, ht, rfl, rfl⟩

theorem transferFrom_ok (dst : Address) (h : n ≤ s.strategy.shares.balanceOf ctx.sender) :
    ∃ l, transferFrom s ctx ctx.sender dst n = .ok { s with strategy.shares := l } ∧
    s.strategy.shares.Transfers ctx.sender dst n l := by
  have ⟨l, hl⟩ := Ledger.transfer_ok dst h
  refine ⟨l, ?_, Ledger.transfer_eq_ok hl⟩
  simp only [transferFrom, Call.bind_eq_ok, Call.pure_eq_ok]
  exact ⟨(), by simp [Call.pure_eq_ok], l, hl, rfl⟩

-- The shares of the sender can be redeemed for what they are worth, unless the product overflows.
theorem exit_ok (to_ : Address) (hc : s.Covered this) (hn : ctx.sender ≠ this) (hb : 0 < b)
    (hl : b ≤ s.strategy.shares.balanceOf ctx.sender)
    (hx : s.backing this * (s.stray this + b) < 2 ^ 256) :
    ∃ s' w, exit this s ctx b to_ = .ok (s', w) ∧ (s.pot this).worth b ≤ w := by
  have ⟨l, ht, htr⟩ := transferFrom_ok this hl
  have hst : State.stray this { s with strategy.shares := l } = s.stray this + b :=
    htr.received hn
  have hpot : State.pot this { s with strategy.shares := l } = s.pot this := by
    simp only [State.pot, State.backing, State.balanceOf, htr.supply]
  have hs : 0 < (s.strategy.shares.totalSupply : ℕ) :=
    Nat.lt_of_lt_of_le hb (hl.trans (s.strategy.shares.balanceOf_le _))
  have hs' : 0 < (l.totalSupply : ℕ) := htr.supply ▸ hs
  have hw : (s.pot this).worth b ≤ (s.pot this).worth (s.stray this + b) :=
    (Pot.Holds.worth_le (refl _) hs (Nat.le_add_left _ _))
  by_cases hp : s.strategy.pool = 0
  case pos =>
    rw [backing_not_selected hp] at hx
    have ⟨s', w, h⟩ := burnForBase_ok (s := { s with strategy.shares := l }) to_ hp hs' (hst ▸ hx)
    refine ⟨s', w, ?_, ?_⟩
    · simp only [exit, ht, Call.bind_eq_ok]
      exact ⟨_, rfl, by simpa [hp] using h⟩
    · rwa [(burnForBase_eq_ok h).right.withdrawn, hst, hpot]
  case neg =>
    rw [backing_selected hp] at hx
    have ⟨s', w, h⟩ := burn_ok (s := { s with strategy.shares := l }) to_ hp hc hs' (hst ▸ hx)
    refine ⟨s', w, ?_, ?_⟩
    · simp only [exit, ht, Call.bind_eq_ok]
      exact ⟨_, rfl, by simpa [hp] using h⟩
    · rwa [(burn_eq_ok h).right.left.withdrawn, hst, hpot]

-- What is redeemed is what the shares on the strategy are worth.
theorem exit_eq_ok (h : exit this s ctx b to_ = .ok (s', w)) :
    ∃ l, s.strategy.shares.Transfers ctx.sender this b l ∧
    0 < (s.strategy.shares.totalSupply : ℕ) ∧ w = (s.pot this).worth (l.balanceOf this) := by
  simp only [exit, Call.bind_eq_ok] at h
  obtain ⟨s₁, ht, h⟩ := h
  have ⟨l, hl, he⟩ := transferFrom_eq_ok ht
  subst he
  have hpot : State.pot this { s with strategy.shares := l } = s.pot this := by
    simp only [State.pot, State.backing, State.balanceOf, hl.supply]
  refine ⟨l, hl, ?_⟩
  rw [← hl.supply, ← hpot]
  split at h
  case isTrue =>
    have h := (burnForBase_eq_ok h).right
    exact ⟨h.supply, h.withdrawn⟩
  case isFalse =>
    have h := (burn_eq_ok h).right.left
    exact ⟨h.supply, h.withdrawn⟩

-- The liquidity tokens which the next call of `mint` takes for a deposit.
def State.deposited (this : Address) (s : State) : ℕ :=
  s.balanceOf s.strategy.pool this - s.strategy.cached

theorem State.Mints.worth_le {a : Address} {c : ℕ} (h : s.Mints this a m s₁)
    (hc : c = m + s.stray this) (hs : 0 < (s₁.strategy.shares.totalSupply : ℕ)) :
    (s₁.pot this).worth c ≤ s.deposited this + (s.pot this).worth (s.stray this) := by
  rw [hc, h.minted]
  apply Pot.worth_minted_le _ (h.minted ▸ h.shares.supply) hs
  · exact s.strategy.shares.balanceOf_le this
  · have := h.backing
    have := h.deposit
    simp only [State.pot, backing_selected h.selected,
      backing_selected (h.pool ▸ h.selected)]
    omega

theorem mint_exit_le (hn : ctx.sender ≠ this)
    (h : mint this s ctx.sender = .ok (s₁, m)) (hx : exit this s₁ ctx m to_ = .ok (s₂, w)) :
    w ≤ s.deposited this + (s.pot this).worth (s.stray this) := by
  have h := mint_eq_ok h
  have ⟨l, hl, hs, hw⟩ := exit_eq_ok hx
  have hc : l.balanceOf this = m + s.stray this := by
    rw [hl.received hn, h.shares.others _ hn.symm, add_comm, State.stray]
  exact hw ▸ h.worth_le hc hs

theorem mint_burn_le (h : mint this s this = .ok (s₁, m)) (hx : burn this s₁ to_ = .ok (s₂, w)) :
    w ≤ s.deposited this + (s.pot this).worth (s.stray this) := by
  have h := mint_eq_ok h
  have hx := (burn_eq_ok hx).right.left
  have hc : s₁.stray this = m + s.stray this := h.shares.balance.trans (add_comm ..)
  exact hx.withdrawn ▸ h.worth_le hc hx.supply

namespace Launch

-- A pool which mints one liquidity token for every unit of base, to begin with.
def context : Context where
  sender                        := 7
  block                         := ⟨1, Nat.one_pos⟩
  ladleCauldron _               := .ok 9
  joins _ _                     := .ok 5
  assets _ _                    := .ok 1
  series _ _                    := .ok ⟨4, 0, 0⟩
  poolBase _                    := .ok 1
  poolFYToken _                 := .ok 4
  maturity _                    := .ok 100
  invariant _ _                 := .ok 0
  mintWithUnderlying t _ _ _    := .ok t
  redeem t _ _ _                := .ok t
  poolMint t pool a _ _ _       := do
    let l ← (t pool).mint a 1000
    return (Function.update t pool l, 1000)
  poolBurn t _ _ _ _ _          := .ok (t, 0)
  spend _ _ _                   := .error "ERC20: Insufficient approval"

theorem credits : context.Credits := by
  intro t pool a _ _ _ t' n h
  simp only [context, Call.bind_eq_ok, Call.pure_eq_ok, Prod.mk.injEq] at h
  obtain ⟨l, hl, rfl, rfl⟩ := h
  simpa using (Ledger.mint_eq_ok hl).balance

def tokens : Tokens := fun a =>
  if a = 1 then
    (((Ledger.empty 256 Address).mint 2 1000 >>= (·.mint 3 1000)).toOption).getD (.empty 256 Address)
  else
    .empty 256 Address

def created : State := init 7 8 9 1 0 5 tokens

def governed : State :=
  { created with strategy.roles :=
      (created.strategy.roles._grantRole selector.setNextPool 7)._grantRole selector.startPool 7 }

def launched : Call State := do
  let s ← exec 2 governed context (.setNextPool 3 0)
  exec 2 s context (.startPool 0 0)

def donate (s : State) : Call State := do
  let l ← (s.tokens 3).mint 2 501
  return { s with tokens := Function.update s.tokens 3 l }

-- Someone joins, and the first holder leaves with half of the shares.
def traded (s : State) : Call State := do
  let s ← donate s
  let s ← exec 2 s context (.mint 6)
  let s ← exec 2 s context (.transferFrom 7 2 500)
  exec 2 s context (.burn 7)

theorem launched_steps (h : launched = .ok s) : Steps (Step 2) created s := by
  simp only [launched, Call.bind_eq_ok] at h
  obtain ⟨_, h₁, h₂⟩ := h
  exact .head (.roles _) <| .head (.call credits h₁) <| .single (.call credits h₂)

theorem traded_steps (h : traded s = .ok s') : Steps (Stays 2) s s' := by
  simp only [traded, donate, Call.bind_eq_ok, Call.pure_eq_ok] at h
  obtain ⟨_, ⟨l, hl, rfl⟩, s₂, h₂, s₃, h₃, h₄⟩ := h
  have hd : ∀ token, (s.tokens token).balanceOf 2 ≤
      (Function.update s.tokens 3 l token).balanceOf 2 := by
    intro token
    by_cases ht : token = 3
    case neg => simp [ht]
    case pos =>
      subst ht
      simp [(Ledger.mint_eq_ok hl).balance]
  refine .head ⟨.others _ hd, rfl⟩ <| .head ⟨.call credits h₂, ?_⟩ <|
    .head ⟨.call credits h₃, ?_⟩ <| .single ⟨.call credits h₄, ?_⟩
  · obtain ⟨⟨_, _⟩, h, rfl⟩ := Call.map_eq_ok.mp h₂
    exact (mint_eq_ok h).pool
  · obtain ⟨_, _, rfl⟩ := transferFrom_eq_ok h₃
    rfl
  · obtain ⟨⟨_, _⟩, h, rfl⟩ := Call.map_eq_ok.mp h₄
    exact (burn_eq_ok h).right.left.pool

end Launch

end StrategyV1
