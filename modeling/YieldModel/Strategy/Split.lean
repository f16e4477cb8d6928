import YieldModel.Lib.FixedPoint
import YieldModel.Strategy.Dilution

namespace StrategyV1

variable {this : Address} {s s' : State} {ctx : Context} {minRatio maxRatio : Uint 256}
  {fyToken_ : Address} {a b c f x y B : ℕ}

-- How `startPool` splits its funds: the first amount is supplied as base, and the second one is used
-- to mint fyToken.
def split (baseBalance baseInPool fyTokenInPool : ℕ) : Call (ℕ × ℕ) := do
  let product ← Uint.cast 256 (baseBalance * baseInPool)
  let sum ← Uint.cast 256 (baseInPool + fyTokenInPool)
  let baseToPool ← divUp product sum
  let fyTokenToPool ← Uint.diff baseBalance baseToPool
  return (baseToPool, fyTokenToPool)

-- What `startPool` does with the two amounts before the pool mints liquidity tokens.
structure State.Supplies (this : Address) (s : State) (ctx : Context) (fyToken_ : Address)
    (minRatio maxRatio : Uint 256) (b f : ℕ) (s' : State) : Prop where
  supplied : ∃ t₁ t₂ t₃,
    s.tokens.safeTransfer s.strategy.base this s.strategy.baseJoin f = .ok t₁ ∧
    ctx.mintWithUnderlying t₁ fyToken_ s.strategy.nextPool f = .ok t₂ ∧
    t₂.safeTransfer s.strategy.base this s.strategy.nextPool b = .ok t₃ ∧
    ctx.poolMint t₃ s.strategy.nextPool this this minRatio maxRatio =
      .ok (s'.tokens, s'.strategy.cached)

theorem startPool_supplies (h : startPool this s ctx minRatio maxRatio = .ok s')
    (hf : ctx.poolFYToken s.strategy.nextPool = .ok fyToken_) :
    ∃ b f, split (s.balanceOf s.strategy.base this)
      (s.balanceOf s.strategy.base s.strategy.nextPool)
      (s.balanceOf fyToken_ s.strategy.nextPool) = .ok (b, f) ∧
    s.Supplies this ctx fyToken_ minRatio maxRatio b f s' := by
  simp only [startPool, hf, Call.bind_eq_ok, Call.pure_eq_ok, Prod.exists, Except.ok.injEq] at h
  obtain ⟨_, -, _, -, _, -, _, rfl, _, -, m, hm, n, hn, b, hb, f, hd, t₁, h₁, t₂, h₂, t₃, h₃, _, _,
    hp, _, -, _, -, rfl⟩ := h
  refine ⟨b, f, ?_, t₁, t₂, t₃, h₁, h₂, h₃, hp⟩
  simp only [split, Call.bind_eq_ok, Call.pure_eq_ok]
  exact ⟨m, hm, n, hn, b, hb, f, hd, rfl⟩

theorem divUp_eq_ok : divUp a b = .ok c ↔ b ≠ 0 ∧ c = a ⌈/⌉ b := by
  have hc : b ≠ 0 → (if a % b = 0 then a / b else a / b + 1) = a ⌈/⌉ b := by
    intro hb
    have hd := Nat.div_add_mod' a b
    have hm := Nat.mod_lt a (Nat.pos_of_ne_zero hb)
    split
    case isTrue h  => exact (FixedPoint.ceilDiv_eq (by omega) (by omega)).symm
    case isFalse h => exact (FixedPoint.ceilDiv_eq (by rw [Nat.succ_mul]; omega)
      (by rw [Nat.succ_mul]; omega)).symm
  simp only [divUp, Call.bind_eq_ok, Call.require_eq_ok, Call.pure_eq_ok, exists_const]
  exact and_congr_right fun hb => by rw [hc hb, eq_comm]

-- An amount `b` of base is enough at the proportion of the pool, if what is left of the funds is
-- to be supplied as fyToken.
def Enough (B x y b : ℕ) : Prop :=
  b ≤ B ∧ (B - b) * x ≤ b * y

theorem enough_iff (h : 0 < x + y) : Enough B x y b ↔ b ≤ B ∧ (B * x) ⌈/⌉ (x + y) ≤ b := by
  apply and_congr_right
  intro hb
  rw [ceilDiv_le_iff_le_mul h, Nat.sub_mul, Nat.sub_le_iff_le_add, mul_comm (x + y), Nat.mul_add,
    add_comm]

theorem base_le (h : 0 < x + y) : (B * x) ⌈/⌉ (x + y) ≤ B :=
  FixedPoint.ceilDiv_le_of_le_mul h (Nat.mul_le_mul_left B (Nat.le_add_right x y))

theorem split_of_lt (hs : 0 < x + y) (hx : B * x < 2 ^ 256) (hy : x + y < 2 ^ 256) :
    split B x y = .ok ((B * x) ⌈/⌉ (x + y), B - (B * x) ⌈/⌉ (x + y)) := by
  simp only [split, Call.bind_eq_ok, Uint.cast_eq_ok, divUp_eq_ok, Uint.diff_eq_ok,
    Call.pure_eq_ok, Prod.mk.injEq]
  exact ⟨⟨_, hx⟩, rfl, ⟨_, hy⟩, rfl, _, ⟨hs.ne', rfl⟩, _, Nat.sub_add_cancel (base_le hs), rfl, rfl⟩

theorem split_of_not_lt (hx : B * x < 2 ^ 256) (hy : ¬x + y < 2 ^ 256) :
    split B x y = .error Uint.panic := by
  simp only [split, Uint.cast, dif_pos hx, dif_neg hy]
  rfl

end StrategyV1
