import YieldModel.Strategy.Configuration

open Execution

namespace StrategyV1

variable {this : Address} {s s' : State} {ctx : Context}

-- Without a pool, nothing is left of the last one.
structure State.Idle (s : State) : Prop where
  fyToken  : s.strategy.fyToken = 0
  seriesId : s.strategy.seriesId = 0
  cached   : s.strategy.cached = 0

theorem exec_cached {a : Action} (h : exec this s ctx a = .ok s') (hp : s'.strategy.pool = 0) :
    s'.strategy.cached = 0 ∨ s.strategy.pool = 0 ∧ s'.strategy.cached = s.strategy.cached := by
  cases a <;> simp only [exec, Call.map_eq_ok, Prod.exists, exists_and_right, exists_eq_right] at h
  case setYield       => exact .inr ⟨(setYield_eq_ok h).pool ▸ hp, (setYield_eq_ok h).cached⟩
  case setTokenId     => exact .inr ⟨(setTokenId_eq_ok h).pool ▸ hp, (setTokenId_eq_ok h).cached⟩
  case resetTokenJoin =>
    exact .inr ⟨(resetTokenJoin_eq_ok h).pool ▸ hp, (resetTokenJoin_eq_ok h).cached⟩
  case setNextPool    => exact .inr ⟨(setNextPool_eq_ok h).pool ▸ hp, (setNextPool_eq_ok h).cached⟩
  case startPool      => exact absurd hp (startPool_eq_ok h).right.left
  case endPool =>
    simp only [endPool, Call.bind_eq_ok, Call.pure_eq_ok, Prod.exists] at h
    obtain ⟨_, -, _, -, _, -, _, _, -, _, -, _, -, rfl⟩ := h
    exact .inl rfl
  case mint =>
    obtain ⟨_, h⟩ := h
    have h := mint_eq_ok h
    exact absurd (h.pool ▸ hp) h.selected
  case burn =>
    obtain ⟨_, h⟩ := h
    obtain ⟨hs, h, _⟩ := burn_eq_ok h
    exact absurd (h.pool ▸ hp) hs
  case burnForBase =>
    obtain ⟨_, h⟩ := h
    simp only [burnForBase, Call.bind_eq_ok, Call.pure_eq_ok, Prod.mk.injEq] at h
    obtain ⟨_, -, _, -, _, -, _, -, _, -, rfl, -⟩ := h
    exact .inr ⟨hp, rfl⟩
  case transferFrom =>
    obtain ⟨_, _, rfl⟩ := transferFrom_eq_ok h
    exact .inr ⟨hp, rfl⟩

theorem exec_idle {a : Action} (h : exec this s ctx a = .ok s')
    (hi : s.strategy.pool = 0 → s.Idle) (hp : s'.strategy.pool = 0) : s'.Idle := by
  have hc : s'.strategy.cached = 0 := by
    cases exec_cached h hp
    case inl hc => exact hc
    case inr hc => exact hc.right.trans (hi hc.left).cached
  have hs := exec_selects h
  generalize hg : s'.strategy.config = g at hs
  have hk : g.pool = 0 → g.fyToken = 0 ∧ g.seriesId = 0 := by
    cases hs
    case idle          => exact fun hp => ⟨(hi hp).fyToken, (hi hp).seriesId⟩
    case setYield      => exact fun hp => ⟨(hi hp).fyToken, (hi hp).seriesId⟩
    case setNextPool   => exact fun hp => ⟨(hi hp).fyToken, (hi hp).seriesId⟩
    case startPool hn _ => exact fun hp => absurd hp hn
    case endPool       => exact fun _ => ⟨rfl, rfl⟩
  subst hg
  exact ⟨(hk hp).left, (hk hp).right, hc⟩

theorem step_idle : Preserves (Step this) fun s => s.strategy.pool = 0 → s.Idle := by
  intro s _ stp hi
  cases stp
  case call _ h => exact exec_idle h hi
  case roles    => exact fun hp => ⟨(hi hp).fyToken, (hi hp).seriesId, (hi hp).cached⟩
  case others   => exact fun hp => ⟨(hi hp).fyToken, (hi hp).seriesId, (hi hp).cached⟩

-- The strategy can always pay: what it counts as its own liquidity tokens is there, so a deposit is
-- what exceeds it, and only an overflow keeps shares from being burnt.
theorem always_covered {sender ladle cauldron base baseJoin : Address} {baseId : Bytes6}
    {t : Tokens} (r : Steps (Step this) (init sender ladle cauldron base baseId baseJoin t) s) :
    (s.strategy.pool = 0 ∧ s.Idle ∨
      s.strategy.pool ≠ 0 ∧ s.strategy.cached ≤ s.balanceOf s.strategy.pool this) ∧
    (s.strategy.pool ≠ 0 →
      (∃ deposit, Uint.diff (s.balanceOf s.strategy.pool this) s.strategy.cached = .ok deposit) ∧
      ∀ to_, 0 < (s.strategy.shares.totalSupply : ℕ) →
        s.strategy.cached * s.stray this < 2 ^ 256 → ∃ s' w, burn this s to_ = .ok (s', w)) := by
  have hi := step_idle.steps r fun _ => ⟨rfl, rfl, rfl⟩
  have hc : s.Covered this := step_covered.steps r fun h => absurd rfl h
  refine ⟨?_, fun hp => ⟨⟨_, Uint.diff_eq_ok.mpr (Nat.sub_add_cancel (hc hp))⟩, ?_⟩⟩
  · by_cases hp : s.strategy.pool = 0
    case pos => exact .inl ⟨hp, hi hp⟩
    case neg => exact .inr ⟨hp, hc hp⟩
  · exact fun to_ hs hx => burn_ok to_ hp hc hs hx

theorem always_covered_launched : ∃ s, Launch.launched = .ok s ∧ s.strategy.pool = 3 ∧
    s.strategy.cached ≤ s.balanceOf s.strategy.pool 2 := by
  have h : (fun s => s.strategy.pool) <$> Launch.launched = .ok 3 := by decide +kernel
  obtain ⟨s, hs, hp⟩ := Call.map_eq_ok.mp h
  have ⟨hc, _⟩ := always_covered (Launch.launched_steps hs)
  refine ⟨s, hs, hp, ?_⟩
  cases hc
  case inl hc => simp [hp] at hc
  case inr hc => exact hc.right

end StrategyV1
