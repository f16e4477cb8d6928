import YieldModel.Convex.Execution

open Execution

namespace ConvexYieldWrapperMock

namespace State

-- The collateral in a vault which is listed for an account.
def ink (s : State) (a : Address) (v : Bytes12) : ℕ :=
  if v ≠ 0 ∧ ((s.cauldrons s.cauldron).vaults v).owner = a then
    ((s.cauldrons s.cauldron).balances v).ink
  else
    0

def collateral (s : State) (a : Address) : ℕ :=
  ((s.vaults a).map (s.ink a)).sum

def deposited (s : State) (a : Address) : ℕ :=
  if a = 0 ∨ a = s.collateralVault then 0 else s.token.balanceOf a + s.collateral a

-- What a checkpoint does for the accounts `us`, which are given with what they have deposited.
structure Serves (this : Address) (isClaim : Bool) (us : List (Address × Uint 256))
    (s s' : State) : Prop where
  frame     : s' = { s with rewards := s'.rewards, cvxRewards := s'.cvxRewards, tokens := s'.tokens }
  supply    : ∀ t, (s'.tokens t).balances.totalSupply = (s.tokens t).balances.totalSupply
  deposited : ∀ u ∈ us, u.1 ≠ 0 → (u.2 : ℕ) = s.deposited u.1
  cvx       : ∃ bal : Uint 256, s.cvxRewards.remaining ≤ bal ∧
              s'.cvxRewards.toDividend = serveAll s.collateralVault isClaim us
                (s.cvxRewards.accrued bal s.token.balances.totalSupply) ∧
              s'.cvxRewards.remaining ≤ s'.balanceOf s.cvx this
  rewards   : ∀ r, s.rewards = [r] → ∃ r' bal left, s'.rewards = [r'] ∧
              r'.rewardToken = r.rewardToken ∧ s.balanceOf r.rewardToken this ≤ bal ∧
              ({ r'.toDividend with reserve := left } : Dividend Address) =
                serveAll s.collateralVault isClaim us
                  (r.accrued bal s.token.balances.totalSupply) ∧
              left ≤ bal ∧ bal ≤ (s.tokens r.rewardToken).balances.totalSupply ∧
              (r.rewardToken ≠ s.cvx → left ≤ s'.balanceOf r.rewardToken this) ∧
              (left < 2 ^ 128 → left = r'.remaining)

-- In all rewards, no account is ahead of the integral.
structure Valid (s : State) : Prop where
  cvxRewards : s.cvxRewards.toDividend.Valid
  rewards    : ∀ r ∈ s.rewards, r.toDividend.Valid

-- A step which changes no rewards and sends nothing but the staked tokens.
structure Keeps (this : Address) (s s' : State) : Prop where
  rewards     : s'.rewards = s.rewards
  cvxRewards  : s'.cvxRewards = s.cvxRewards
  crv         : s'.crv = s.crv
  cvx         : s'.cvx = s.cvx
  convexToken : s'.convexToken = s.convexToken
  convexPool  : s'.convexPool = s.convexPool
  staking     : ∀ a, (s'.pools a).stakingToken = (s.pools a).stakingToken
  balance     : ∀ t ≠ s.convexToken, t ≠ (s.pools s.convexPool).stakingToken →
                s.balanceOf t this ≤ s'.balanceOf t this

-- All other contracts may do anything, but take what belongs to `this`.
structure Others (this : Address) (s s' : State) : Prop where
  wrapper : s'.toConvexYieldWrapperMock = s.toConvexYieldWrapperMock
  staking : ∀ a, (s'.pools a).stakingToken = (s.pools a).stakingToken
  balance : ∀ t ≠ s.convexToken, t ≠ (s.pools s.convexPool).stakingToken →
            s.balanceOf t this ≤ s'.balanceOf t this

end State

-- The accounts for which an action updates the rewards.
def Action.accounts : Action → List Address
  | .wrap _ from_                      => [0, from_]
  | .unwrap to_                        => [0, to_]
  | .getReward account                 => [account, 0]
  | .userCheckpoint account₀ account₁  => [account₀, account₁]
  | _                                  => []

def Action.isClaim : Action → Bool
  | .getReward _ => true
  | _            => false

inductive Step (this : Address) : State → State → Prop
  | call {s s' : State} (a : Action) : exec this s a = .ok s' → Step this s s'
  | others {s s' : State} : s.Others this s' → Step this s s'

variable {this a pool : Address} {s s' s₁ : State} {isClaim : Bool} {b c n : Uint 256}
  {us : List (Address × Uint 256)} {l : List Bytes12} {w w' : World}

theorem foldlM_addCollateral_eq_ok (h : l.foldlM (s.addCollateral a) b = .ok c) :
    (c : ℕ) = b + (l.map (s.ink a)).sum := by
  induction l generalizing b
  case nil => cases h; rfl
  case cons v l hi =>
    simp only [List.foldlM_cons, Call.bind_eq_ok] at h
    obtain ⟨b', hb, h⟩ := h
    have hb : (b' : ℕ) = b + s.ink a v := by
      unfold State.addCollateral at hb
      unfold State.ink
      split at hb
      case isTrue hv  => rw [if_pos hv]; exact Uint.cast_eq_ok.mp hb
      case isFalse hv => cases hb; rw [if_neg hv]; rfl
    rw [hi h, hb, List.map_cons, List.sum_cons, Nat.add_assoc]

theorem getDepositedBalance_eq_ok (h : s._getDepositedBalance a = .ok b) :
    (b : ℕ) = s.deposited a := by
  unfold State._getDepositedBalance at h
  unfold State.deposited
  split at h
  case isTrue ha => cases h; rw [if_pos ha]; rfl
  case isFalse ha =>
    simp only [Call.bind_eq_ok, Uint.cast_eq_ok] at h
    obtain ⟨c, hc, hb⟩ := h
    rw [if_neg ha, hb, foldlM_addCollateral_eq_ok hc, State.collateral, Fin.val_zero, Nat.zero_add]

theorem balanceOf_le (w : World) (t a : Address) :
    w.balanceOf t a ≤ (w.tokens t).balances.totalSupply :=
  (w.tokens t).balances.balanceOf_le a

theorem calcRewardIntegrals_singleton {cv : Address} {r : RewardType} {rs : List RewardType}
    (h : calcRewardIntegrals this cv us b isClaim [r] w = .ok (rs, w')) :
    ∃ r', _calcRewardIntegral this cv us b isClaim r w = .ok (r', w') ∧ rs = [r'] := by
  simp only [calcRewardIntegrals, Call.bind_eq_ok, Call.pure_eq_ok, Prod.mk.injEq] at h
  obtain ⟨x, hx, y, rfl, rfl, rfl⟩ := h
  exact ⟨x.1, hx, rfl⟩

theorem calcRewardIntegrals_frame {cv : Address} {rs rs' : List RewardType}
    (h : calcRewardIntegrals this cv us b isClaim rs w = .ok (rs', w'))
    (hv : ∀ r ∈ rs, r.toDividend.Valid) :
    w'.cauldrons = w.cauldrons ∧ w'.pools = w.pools ∧
    (∀ t, (w'.tokens t).balances.totalSupply = (w.tokens t).balances.totalSupply) := by
  induction rs generalizing w rs'
  case nil =>
    cases h
    exact ⟨rfl, rfl, fun _ => rfl⟩
  case cons r rs hi =>
    simp only [calcRewardIntegrals, Call.bind_eq_ok, Call.pure_eq_ok, Prod.mk.injEq] at h
    obtain ⟨x, hx, y, hy, -, rfl⟩ := h
    have ⟨hr, hrs⟩ := List.forall_mem_cons.mp hv
    obtain ⟨-, _, n, hd, -⟩ := calcRewardIntegral_eq_ok hx hr
    obtain ⟨hc, hp, hs⟩ := hi hy hrs
    refine ⟨hc.trans hd.spends.cauldrons, hp.trans hd.spends.pools, fun t => (hs t).trans ?_⟩
    by_cases ht : t = r.rewardToken
    case pos => exact ht ▸ hd.spends.supply
    case neg => rw [hd.spends.others t ht]

theorem updateRewards_eq_ok (h : s.updateRewards this us isClaim = .ok s') (hv : s.Valid)
    (hu : ∀ u ∈ us, u.1 ≠ 0 → (u.2 : ℕ) = s.deposited u.1) : s.Serves this isClaim us s' := by
  simp only [State.updateRewards, Call.bind_eq_ok, Call.pure_eq_ok] at h
  obtain ⟨w₀, h₀, ⟨rs, w₁⟩, h₁, ⟨r, w₂⟩, h₂, rfl⟩ := h
  have h₀ := getReward_receives h₀
  obtain ⟨hc₁, hp₁, hs₁⟩ := calcRewardIntegrals_frame h₁ hv.rewards
  obtain ⟨hr, n, hd⟩ := calcCvxIntegral_eq_ok h₂ hv.cvxRewards
  have hs₂ (t : Address) : (w₂.tokens t).balances.totalSupply = (w₁.tokens t).balances.totalSupply := by
    by_cases ht : t = s.cvx
    case pos => exact ht ▸ hd.spends.supply
    case neg => rw [hd.spends.others t ht]
  refine {
    frame     := ?_
    supply    := fun t => (hs₂ t).trans ((hs₁ t).trans (h₀.supply t))
    deposited := hu
    cvx       := ⟨_, hr, hd.dividend, ?_⟩
    rewards   := ?_
  }
  case refine_1 =>
    have hc : w₂.cauldrons = s.cauldrons := hd.spends.cauldrons.trans (hc₁.trans h₀.cauldrons)
    have hp : w₂.pools = s.pools := hd.spends.pools.trans (hp₁.trans h₀.pools)
    rw [← hc, ← hp]
  case refine_2 =>
    have hl := hd.spends.left
    have hb := hd.balance
    exact Fin.le_def.mpr (by dsimp only; omega)
  case refine_3 =>
    intro r₀ hr₀
    rw [hr₀] at h₁
    obtain ⟨r', hr', rfl⟩ := calcRewardIntegrals_singleton h₁
    obtain ⟨ht, left, m, hd', hl⟩ := calcRewardIntegral_eq_ok hr' (hv.rewards r₀ (by simp [hr₀]))
    have hb := hd'.balance
    refine ⟨r', _, left, rfl, ht, h₀.balance _, hd'.dividend, by omega, ?_, fun hn => ?_, hl⟩
    · exact (balanceOf_le ..).trans_eq (h₀.supply _)
    · have hs := hd'.spends.left
      have he : w₂.balanceOf r₀.rewardToken this = w₁.balanceOf r₀.rewardToken this := by
        simp only [World.balanceOf, hd.spends.others _ hn]
      dsimp only
      rw [he]
      omega

section Frames

variable {token src dst sender : Address}

-- What is left alone by those functions of other contracts which move one token.
structure World.Moves (token : Address) (w w' : World) : Prop where
  others    : ∀ t ≠ token, w'.tokens t = w.tokens t
  cauldrons : w'.cauldrons = w.cauldrons
  staking   : ∀ a, (w'.pools a).stakingToken = (w.pools a).stakingToken

theorem transfer_moves (h : w.transfer token src dst n = .ok w') : w.Moves token w' := by
  simp only [World.transfer, Call.bind_eq_ok, Call.pure_eq_ok] at h
  obtain ⟨t, -, rfl⟩ := h
  exact ⟨fun t ht => by simp [ht], rfl, fun _ => rfl⟩

theorem transferFrom_moves (h : w.transferFrom token sender src dst n = .ok w') :
    w.Moves token w' := by
  simp only [World.transferFrom, Call.bind_eq_ok, Call.pure_eq_ok] at h
  obtain ⟨t, -, rfl⟩ := h
  exact ⟨fun t ht => by simp [ht], rfl, fun _ => rfl⟩

theorem World.Moves.of_pools {p : ConvexPoolMock} (hp : p.stakingToken = (w.pools pool).stakingToken)
    (h : World.Moves token { w with pools := Function.update w.pools pool p } w') :
    w.Moves token w' where
  others    := h.others
  cauldrons := h.cauldrons
  staking a := by
    rw [h.staking]
    by_cases ha : a = pool
    case pos => simp [ha, hp]
    case neg => simp [ha]

theorem stake_moves (h : w.stake pool sender n = .ok w') :
    w.Moves (w.pools pool).stakingToken w' := by
  simp only [World.stake, Call.bind_eq_ok] at h
  obtain ⟨_, -, _, -, _, -, h⟩ := h
  exact .of_pools (by rfl) (transferFrom_moves h)

theorem withdraw_moves (h : w.withdraw pool sender n = .ok w') :
    w.Moves (w.pools pool).stakingToken w' := by
  simp only [World.withdraw, Call.bind_eq_ok] at h
  obtain ⟨_, -, _, -, _, -, h⟩ := h
  exact .of_pools (by rfl) (transfer_moves h)

end Frames

namespace State.Keeps

theorem of_eq (h : s'.toWorld = s.toWorld) (hr : s'.rewards = s.rewards)
    (hc : s'.cvxRewards = s.cvxRewards) (h₁ : s'.crv = s.crv) (h₂ : s'.cvx = s.cvx)
    (h₃ : s'.convexToken = s.convexToken) (h₄ : s'.convexPool = s.convexPool) :
    s.Keeps this s' where
  rewards     := hr
  cvxRewards  := hc
  crv         := h₁
  cvx         := h₂
  convexToken := h₃
  convexPool  := h₄
  staking a   := by rw [h]
  balance t _ _ := by rw [h]

end State.Keeps

theorem checkpoint_eq_ok {a₀ a₁ : Address} (h : s._checkpoint this a₀ a₁ = .ok s') (hv : s.Valid) :
    ∃ us : List (Address × Uint 256), us.map Prod.fst = [a₀, a₁] ∧ s.Serves this false us s' := by
  simp only [State._checkpoint, Call.bind_eq_ok] at h
  obtain ⟨b₀, h₀, b₁, h₁, h⟩ := h
  refine ⟨_, rfl, updateRewards_eq_ok h hv ?_⟩
  simp [getDepositedBalance_eq_ok h₀, getDepositedBalance_eq_ok h₁]

theorem checkpointAndClaim_eq_ok (h : s._checkpointAndClaim this a 0 = .ok s') (hv : s.Valid) :
    ∃ us : List (Address × Uint 256), us.map Prod.fst = [a, 0] ∧ s.Serves this true us s' := by
  simp only [State._checkpointAndClaim, Call.bind_eq_ok] at h
  obtain ⟨b₀, h₀, h⟩ := h
  refine ⟨_, rfl, updateRewards_eq_ok h hv ?_⟩
  simp [getDepositedBalance_eq_ok h₀]

theorem wrap_eq_ok {to_ from_ : Address} (h : s.wrap this to_ from_ = .ok s') (hv : s.Valid) :
    ∃ us s₁, us.map Prod.fst = [0, from_] ∧ s.Serves this false us s₁ ∧ s₁.Keeps this s' := by
  simp only [State.wrap, Call.bind_eq_ok, Call.pure_eq_ok] at h
  obtain ⟨_, -, s₁, h₁, balances, -, w, hw, rfl⟩ := h
  obtain ⟨us, hu, hs⟩ := checkpoint_eq_ok h₁ hv
  have hw := stake_moves hw
  refine ⟨us, s₁, hu, hs, rfl, rfl, rfl, rfl, rfl, rfl, hw.staking, fun t _ ht => ?_⟩
  simp only [World.balanceOf, hw.others t ht, le_refl]

theorem unwrap_eq_ok {to_ : Address} (h : s.unwrap this to_ = .ok s') (hv : s.Valid) :
    ∃ us s₁, us.map Prod.fst = [0, to_] ∧ s.Serves this false us s₁ ∧ s₁.Keeps this s' := by
  simp only [State.unwrap, Call.bind_eq_ok, Call.pure_eq_ok] at h
  obtain ⟨_, -, s₁, h₁, balances, -, _, -, w, hw, w', hw', rfl⟩ := h
  obtain ⟨us, hu, hs⟩ := checkpoint_eq_ok h₁ hv
  have hw := withdraw_moves hw
  have hw' := transfer_moves hw'
  refine ⟨us, s₁, hu, hs, rfl, rfl, rfl, rfl, rfl, rfl, fun a => ?_, fun t ht hp => ?_⟩
  · exact (hw'.staking a).trans (hw.staking a)
  · simp only [World.balanceOf, hw'.others t ht, hw.others t hp, le_refl]

theorem setApprovals_keeps : s.Keeps this (s.setApprovals this) := by
  have hb (t : Address) : (s.setApprovals this).balanceOf t this = s.balanceOf t this := by
    by_cases ht : t = s.convexToken <;>
      simp [State.setApprovals, World.approve, World.balanceOf, ERC20._setAllowance,
        ERC20.balanceOf, ht]
  exact ⟨rfl, rfl, rfl, rfl, rfl, rfl, fun _ => rfl, fun t _ _ => (hb t).ge⟩

-- Each action updates the rewards of its accounts, or leaves all rewards alone.
theorem exec_cases {act : Action} (h : exec this s act = .ok s') (hv : s.Valid)
    (hr : s.rewards ≠ []) :
    s.Keeps this s' ∨
    ∃ us s₁, us.map Prod.fst = act.accounts ∧ s.Serves this act.isClaim us s₁ ∧ s₁.Keeps this s' := by
  cases act
  case wrap to_ from_      => exact .inr (wrap_eq_ok h hv)
  case unwrap to_          => exact .inr (unwrap_eq_ok h hv)
  case getReward a         =>
    obtain ⟨us, hu, hs⟩ := checkpointAndClaim_eq_ok h hv
    exact .inr ⟨us, s', hu, hs, .of_eq rfl rfl rfl rfl rfl rfl rfl⟩
  case userCheckpoint a₀ a₁ =>
    obtain ⟨us, hu, hs⟩ := checkpoint_eq_ok h hv
    exact .inr ⟨us, s', hu, hs, .of_eq rfl rfl rfl rfl rfl rfl rfl⟩
  case setApprovals => cases h; exact .inl setApprovals_keeps
  case addRewards   =>
    have hl : s.rewards.length ≠ 0 := by simpa using hr
    simp only [exec, State.addRewards, if_neg hl] at h
    cases h
    exact .inl (.of_eq rfl rfl rfl rfl rfl rfl rfl)
  all_goals
    simp only [exec, State.addVault, Call.bind_eq_ok, Call.pure_eq_ok] at h
    left
  case addVault =>
    obtain ⟨_, -, _, -, rfl⟩ := h
    exact .of_eq rfl rfl rfl rfl rfl rfl rfl
  case transfer | transferFrom =>
    obtain ⟨t, -, rfl⟩ := h
    exact .of_eq rfl rfl rfl rfl rfl rfl rfl
  all_goals
    cases h
    exact .of_eq rfl rfl rfl rfl rfl rfl rfl

end ConvexYieldWrapperMock
