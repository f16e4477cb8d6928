import YieldModel.Strategy.Dilution

open Execution

namespace StrategyV1

variable {this : Address} {s s' : State} {ctx : Context} {restarts : Prop}

-- A burn leaves some of the shares, and a pool which is started mints some liquidity tokens.
-- The pool is only ended if `restarts` holds.
def KeepsOpen (this : Address) (restarts : Prop) (s : State) (ctx : Context) : Action → Prop
  | .startPool _ _ => ∀ t pool a remainder minRatio maxRatio t' n,
    ctx.poolMint t pool a remainder minRatio maxRatio = .ok (t', n) → 0 < (n : ℕ)
  | .burn _        => s.stray this ≠ s.strategy.shares.totalSupply
  | .endPool       => restarts
  | _              => True

-- The steps of an execution in which all calls of the strategy satisfy `P`.
inductive Guarded (this : Address) (P : State → Context → Action → Prop) : State → State → Prop
  | call {s s' : State} {ctx : Context} {a : Action} :
    ctx.Credits → P s ctx a → exec this s ctx a = .ok s' → Guarded this P s s'
  | roles {s : State} (r : AccessControl) : Guarded this P s { s with strategy.roles := r }
  | others {s : State} (t : Tokens) :
    (∀ token, (s.tokens token).balanceOf this ≤ (t token).balanceOf this) →
    Guarded this P s { s with tokens := t }

theorem Guarded.step {P : State → Context → Action → Prop} (h : Guarded this P s s') :
    Step this s s' := by
  cases h
  case call hm _ h => exact .call hm h
  case roles r     => exact .roles r
  case others t ht => exact .others t ht

-- While a pool is selected, there are liquidity tokens in which new shares can be measured. Without
-- restarts, a share is backed by at least one of them.
structure State.Open (restarts : Prop) (s : State) : Prop where
  cached : s.strategy.pool ≠ 0 → 0 < (s.strategy.cached : ℕ)
  empty  : ¬restarts → s.strategy.pool = 0 → (s.strategy.shares.totalSupply : ℕ) = 0
  backed : ¬restarts → s.strategy.pool ≠ 0 →
           (s.strategy.shares.totalSupply : ℕ) ≤ s.strategy.cached

theorem State.Configures.open (h : s.Configures s') (ho : s.Open restarts) :
    s'.Open restarts where
  cached hp := h.cached ▸ ho.cached (h.pool ▸ hp)
  empty hr hp := h.shares ▸ ho.empty hr (h.pool ▸ hp)
  backed hr hp := by
    rw [h.shares, h.cached]
    exact ho.backed hr (h.pool ▸ hp)

theorem startPool_shares {minRatio maxRatio : Uint 256}
    (h : startPool this s ctx minRatio maxRatio = .ok s')
    (hs : (s.strategy.shares.totalSupply : ℕ) = 0) :
    (s'.strategy.shares.totalSupply : ℕ) = s'.strategy.cached := by
  have hs : s.strategy.shares.totalSupply = 0 := Fin.ext hs
  simp only [startPool, hs, if_true, Call.bind_eq_ok, Call.pure_eq_ok, Prod.exists] at h
  obtain ⟨_, -, _, -, _, -, _, -, _, -, _, -, _, -, _, -, _, -, _, -, _, -, _, -, _, c, -, l, hl, _, -,
    rfl⟩ := h
  rw [(Ledger.mint_eq_ok hl).supply, hs, Fin.val_zero, Nat.zero_add]

theorem startPool_open {minRatio maxRatio : Uint 256}
    (h : startPool this s ctx minRatio maxRatio = .ok s')
    (hk : KeepsOpen this restarts s ctx (.startPool minRatio maxRatio)) (ho : s.Open restarts) :
    s'.Open restarts := by
  have ⟨hp, hp', t, remainder, hm⟩ := startPool_eq_ok h
  exact {
    cached := fun _ => hk _ _ _ _ _ _ _ _ hm
    empty  := fun _ hz => absurd hz hp'
    backed := fun hr _ => (startPool_shares h (ho.empty hr hp)).le
  }

theorem mint_open {to_ : Address} {m : ℕ} (h : mint this s to_ = .ok (s', m))
    (ho : s.Open restarts) : s'.Open restarts := by
  have h := mint_eq_ok h
  have hd := h.deposit
  have hb := h.backing
  refine ⟨fun _ => ?_, fun _ hz => absurd (h.pool ▸ hz) h.selected, fun hr _ => ?_⟩
  · have := h.cached
    omega
  · have hm : m ≤ s.balanceOf s.strategy.pool this - s.strategy.cached := by
      rw [h.minted, Pot.minted, State.pot, backing_selected h.selected]
      apply Nat.div_le_of_le_mul
      exact Nat.mul_le_mul_right _ (ho.backed hr h.selected)
    have := ho.backed hr h.selected
    have := h.shares.supply
    omega

-- What is withdrawn is rounded down, so only a burn of all shares can withdraw everything.
theorem burn_open {to_ : Address} {w : ℕ} (h : burn this s to_ = .ok (s', w))
    (hk : KeepsOpen this restarts s ctx (.burn to_)) (ho : s.Open restarts) :
    s'.Open restarts := by
  have ⟨hs, h, hc⟩ := burn_eq_ok h
  have hl := s.strategy.shares.balanceOf_le this
  have hk : s.stray this < s.strategy.shares.totalSupply := lt_of_le_of_ne hl hk
  have hw : w = s.strategy.cached * s.stray this / s.strategy.shares.totalSupply := by
    rw [h.withdrawn, Pot.worth, State.pot, backing_selected hs]
  have hm : w * s.strategy.shares.totalSupply ≤ s.strategy.cached * s.stray this := by
    rw [hw]
    exact Nat.div_mul_le_self ..
  have hb := h.shares.supply
  refine ⟨fun _ => ?_, fun _ hz => absurd (h.pool ▸ hz) hs, fun hr _ => ?_⟩
  · have hw : w < s.strategy.cached := by
      rw [hw]
      apply Nat.div_lt_of_lt_mul
      rw [mul_comm]
      exact Nat.mul_lt_mul_of_pos_right hk (ho.cached hs)
    omega
  · have := ho.backed hr hs
    have hq : (s'.strategy.shares.totalSupply : ℕ) * s.strategy.shares.totalSupply ≤
        s'.strategy.cached * s.strategy.shares.totalSupply := by
      nlinarith
    exact Nat.le_of_mul_le_mul_right hq h.supply

theorem exec_open {a : Action} (h : exec this s ctx a = .ok s')
    (hk : KeepsOpen this restarts s ctx a) (ho : s.Open restarts) : s'.Open restarts := by
  cases a <;> simp only [exec, Call.map_eq_ok, Prod.exists, exists_and_right, exists_eq_right] at h
  case setYield       => exact (setYield_eq_ok h).open ho
  case setTokenId     => exact (setTokenId_eq_ok h).open ho
  case resetTokenJoin => exact (resetTokenJoin_eq_ok h).open ho
  case setNextPool    => exact (setNextPool_eq_ok h).open ho
  case startPool      => exact startPool_open h hk ho
  case endPool =>
    have hp := (endPool_eq_ok h).right
    exact ⟨fun hn => absurd hp hn, fun hr => absurd hk hr, fun hr => absurd hk hr⟩
  case mint =>
    obtain ⟨_, h⟩ := h
    exact mint_open h ho
  case burn =>
    obtain ⟨_, h⟩ := h
    exact burn_open h hk ho
  case burnForBase =>
    obtain ⟨_, h⟩ := h
    obtain ⟨hs, h⟩ := burnForBase_eq_ok h
    have hp := h.pool.trans hs
    refine ⟨fun hn => absurd hp hn, fun hr _ => ?_, fun _ hn => absurd hp hn⟩
    exact absurd (ho.empty hr hs) h.supply.ne'
  case transferFrom =>
    obtain ⟨_, hl, he⟩ := transferFrom_eq_ok h
    subst he
    exact ⟨ho.cached, fun hr hp => hl.supply ▸ ho.empty hr hp, fun hr hp => hl.supply ▸ ho.backed hr hp⟩

theorem guarded_open : Preserves (Guarded this (KeepsOpen this restarts)) (·.Open restarts) := by
  intro s _ stp ho
  cases stp
  case call _ hk h => exact exec_open h hk ho
  case roles       => exact ⟨ho.cached, ho.empty, ho.backed⟩
  case others      => exact ⟨ho.cached, ho.empty, ho.backed⟩

theorem State.Covered.deposited_add (h : s.Covered this) (hp : s.strategy.pool ≠ 0) :
    s.deposited this + s.strategy.cached = s.balanceOf s.strategy.pool this :=
  Nat.sub_add_cancel (h hp)

theorem balanceOf_lt (s : State) (token a : Address) : s.balanceOf token a < 2 ^ 256 :=
  ((s.tokens token).balanceOf_le a).trans_lt (s.tokens token).totalSupply.isLt

theorem mint_ok (to_ : Address) (hp : s.strategy.pool ≠ 0) (hc : s.Covered this)
    (hn : 0 < (s.strategy.cached : ℕ))
    (hx : s.strategy.shares.totalSupply * s.deposited this < 2 ^ 256)
    (hs : s.strategy.shares.totalSupply +
      s.strategy.shares.totalSupply * s.deposited this / s.strategy.cached < 2 ^ 256) :
    ∃ s' m, mint this s to_ = .ok (s', m) := by
  have hd := hc.deposited_add hp
  have hb : s.strategy.cached + s.deposited this < 2 ^ 256 := by
    rw [add_comm, hd]
    exact balanceOf_lt ..
  simp only [mint, poolSelected, Call.bind_eq_ok, Call.require_eq_ok, Uint.diff_eq_ok,
    Uint.cast_eq_ok, div_eq_ok, Call.pure_eq_ok, Prod.mk.injEq]
  exact ⟨_, _, (), hp, _, hd, ⟨_, hx⟩, rfl, _, ⟨hn.ne', rfl⟩, ⟨_, hb⟩, rfl, _, dif_pos hs, rfl, rfl⟩

-- As long as no burn takes all of the shares at once, and pools mint liquidity tokens when they are
-- started, everyone can join. (After a restart, there may be fewer liquidity tokens than shares, so
-- that the total supply may overflow.)
theorem stays_open {sender ladle cauldron base baseJoin : Address} {baseId : Bytes6} {t : Tokens}
    (r : Steps (Guarded this (KeepsOpen this restarts))
      (init sender ladle cauldron base baseId baseJoin t) s)
    (to_ : Address) (hp : s.strategy.pool ≠ 0)
    (hx : s.strategy.shares.totalSupply * s.deposited this < 2 ^ 256)
    (hs : restarts → s.strategy.shares.totalSupply +
      s.strategy.shares.totalSupply * s.deposited this / s.strategy.cached < 2 ^ 256) :
    0 < (s.strategy.cached : ℕ) ∧ ∃ s' m, mint this s to_ = .ok (s', m) := by
  have hg := Relation.ReflTransGen.mono (fun _ _ => Guarded.step) _ _ r
  have hc : s.Covered this := step_covered.steps hg fun h => absurd rfl h
  have ho : s.Open restarts :=
    guarded_open.steps r ⟨fun h => absurd rfl h, fun _ _ => rfl, fun _ h => absurd rfl h⟩
  refine ⟨ho.cached hp, mint_ok to_ hp hc (ho.cached hp) hx ?_⟩
  by_cases hr : restarts
  case pos => exact hs hr
  case neg =>
    have hm : s.strategy.shares.totalSupply * s.deposited this / s.strategy.cached ≤
        s.deposited this :=
      Nat.div_le_of_le_mul (Nat.mul_le_mul_right _ (ho.backed hr hp))
    have hb := ho.backed hr hp
    have hd := hc.deposited_add hp
    have hl := balanceOf_lt s s.strategy.pool this
    omega

namespace Launch

theorem launched_guarded (h : launched = .ok s) :
    Steps (Guarded 2 (KeepsOpen 2 False)) created s := by
  simp only [launched, Call.bind_eq_ok] at h
  obtain ⟨_, h₁, h₂⟩ := h
  refine .head (.roles _) <| .head (.call (a := .setNextPool 3 0) credits trivial h₁) <|
    .single (.call (a := .startPool 0 0) credits ?_ h₂)
  intro t pool a _ _ _ t' n h
  simp only [context, Call.bind_eq_ok, Call.pure_eq_ok, Prod.mk.injEq] at h
  obtain ⟨_, _, _, rfl⟩ := h
  decide

-- The only holder leaves with all of the shares, and someone else sends liquidity tokens.
def abandoned : Call State := do
  let s ← launched
  let s ← exec 2 s context (.transferFrom 7 2 1000)
  let s ← exec 2 s context (.burn 7)
  donate s

theorem abandoned_steps (h : abandoned = .ok s) : Steps (Step 2) created s := by
  simp only [abandoned, donate, Call.bind_eq_ok, Call.pure_eq_ok] at h
  obtain ⟨s₁, h₁, s₂, h₂, s₃, h₃, l, hl, rfl⟩ := h
  refine (launched_steps h₁).trans <| .head (.call credits h₂) <| .head (.call credits h₃) <|
    .single (.others _ fun token => ?_)
  by_cases ht : token = 3
  case neg => simp [ht]
  case pos =>
    subst ht
    simp [(Ledger.mint_eq_ok hl).balance]

end Launch

theorem stays_open_launched : ∃ s, Launch.launched = .ok s ∧ 0 < (s.strategy.cached : ℕ) ∧
    ∃ s' m, mint 2 s 6 = .ok (s', m) := by
  have h : (fun s => (s.strategy.pool, (s.strategy.shares.totalSupply : ℕ) * s.deposited 2)) <$>
      Launch.launched = .ok (3, 0) := by
    decide +kernel
  obtain ⟨s, hs, h⟩ := Call.map_eq_ok.mp h
  simp only [Prod.mk.injEq] at h
  refine ⟨s, hs, stays_open (Launch.launched_guarded hs) 6 ?_ ?_ False.elim⟩
  · rw [h.left]
    decide
  · rw [h.right]
    decide

-- Nobody can join a strategy which everyone has left.
theorem stays_closed : ¬∀ (this sender ladle cauldron base baseJoin : Address) (baseId : Bytes6)
    (t : Tokens) (s : State),
    Steps (Step this) (init sender ladle cauldron base baseId baseJoin t) s →
    s.strategy.pool ≠ 0 → 0 < s.deposited this →
    s.strategy.shares.totalSupply * s.deposited this < 2 ^ 256 →
    ∀ to_, ∃ s' m, mint this s to_ = .ok (s', m) := by
  intro h
  have hv : (fun s => (s.strategy.pool, s.deposited 2,
      (s.strategy.shares.totalSupply : ℕ) * s.deposited 2, (mint 2 s 6).isOk)) <$>
      Launch.abandoned = .ok (3, 501, 0, false) := by
    decide +kernel
  obtain ⟨s, hs, hv⟩ := Call.map_eq_ok.mp hv
  simp only [Prod.mk.injEq] at hv
  obtain ⟨hp, hd, hx, hm⟩ := hv
  obtain ⟨s', m, he⟩ := h 2 7 8 9 1 5 0 _ s (Launch.abandoned_steps hs) (by rw [hp]; decide)
    (by rw [hd]; decide) (by rw [hx]; decide) 6
  rw [he] at hm
  cases hm

end StrategyV1
