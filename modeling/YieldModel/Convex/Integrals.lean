import YieldModel.Convex.Steps

open Execution

namespace ConvexYieldWrapperMock

variable {this cv k : Address} {s s' s₁ : State} {act : Action} {isClaim : Bool}
  {us : List (Address × Uint 256)} {d : Dividend Address} {b : ℕ} {r : Rewards}
  {bal supply : Uint 256} {l : List Address}

-- There are rewards in CVX, and in one other token.
structure State.Deployed (s : State) : Prop where
  rewards : ∃ r, s.rewards = [r]
  valid   : s.Valid

theorem serve_advances {u : Address × Uint 256} (hd : d.Valid) :
    d.Advances (serve cv isClaim d u) := by
  unfold serve
  split
  case isTrue  => exact refl d
  case isFalse =>
    split
    case isTrue  => exact .pay hd
    case isFalse => exact .settle hd

theorem serveAll_advances (hd : d.Valid) : d.Advances (serveAll cv isClaim us d) := by
  induction us generalizing d
  case nil          => exact refl d
  case cons u us hi => exact trans_of _ (serve_advances hd) (hi (serve_valid hd))

-- What a checkpoint means for an account of weight `b`: it costs at most one unit each time that the
-- account is among those which are served.
theorem serve_erodes {u : Address × Uint 256} (h₀ : k ≠ 0) (hc : k ≠ cv) (hu : u.1 = k → u.2 = b)
    (hn : isClaim → u.1 ≠ k) :
    Dividend.Erodes scale b k (if u.1 = k then 1 else 0) d (serve cv isClaim d u) := by
  unfold serve
  by_cases hk : u.1 = k
  case pos =>
    have hcl : ¬isClaim := fun h => hn h hk
    rw [if_pos hk, if_neg (by rw [hk]; exact not_or.mpr ⟨h₀, hc⟩), if_neg hcl, hk, hu hk]
    exact .settle scale_pos
  case neg =>
    rw [if_neg hk]
    split
    case isTrue  => exact .rfl'
    case isFalse =>
      split
      case isTrue  => exact .pay_of_ne (Ne.symm hk)
      case isFalse => exact .settle_of_ne (Ne.symm hk)

theorem serveAll_erodes (h₀ : k ≠ 0) (hc : k ≠ cv) (hu : ∀ u ∈ us, u.1 = k → u.2 = b)
    (hn : isClaim → k ∉ us.map Prod.fst) :
    Dividend.Erodes scale b k ((us.map Prod.fst).count k) d (serveAll cv isClaim us d) := by
  induction us generalizing d
  case nil => exact .rfl'
  case cons u us hi =>
    have ⟨hu, hus⟩ := List.forall_mem_cons.mp hu
    have h := serve_erodes (d := d) h₀ hc hu fun h hk => hn h (by simp [hk])
    have hn : isClaim → k ∉ us.map Prod.fst := fun h hk => hn h (List.mem_cons_of_mem _ hk)
    rw [List.map_cons, List.count_cons, Nat.add_comm]
    simp only [beq_iff_eq]
    exact h.trans (hi hus hn)

theorem accrued_advances : r.toDividend.Advances (r.accrued bal supply) :=
  ⟨Nat.le_add_right .., fun _ => le_rfl⟩

theorem accrued_erodes (hr : r.toDividend.Valid) :
    Dividend.Erodes scale b k 0 r.toDividend (r.accrued bal supply) :=
  .of_index_le hr (Nat.le_add_right ..) rfl rfl

-- What a step which serves the accounts `l` does to the rewards in one token, apart from what remains
-- of them.
structure Rewards.Evolves (s : State) (l : List Address) (isClaim : Bool) (r r' : Rewards) :
    Prop where
  advances : r.toDividend.Advances r'.toDividend
  valid    : r'.toDividend.Valid
  erodes   : ∀ k ≠ 0, k ≠ s.collateralVault → (isClaim → k ∉ l) →
             Dividend.Erodes scale (s.deposited k) k (l.count k) r.toDividend r'.toDividend

structure State.Evolves (s : State) (l : List Address) (isClaim : Bool) (s' : State) : Prop where
  cvxRewards : s.cvxRewards.Evolves s l isClaim s'.cvxRewards
  rewards    : ∀ r, s.rewards = [r] → ∃ r', s'.rewards = [r'] ∧ r'.rewardToken = r.rewardToken ∧
               r.toRewards.Evolves s l isClaim r'.toRewards

namespace Rewards.Evolves

theorem of_serveAll {r' : Rewards} {left : ℕ} (hr : r.toDividend.Valid)
    (hu : ∀ u ∈ us, u.1 ≠ 0 → (u.2 : ℕ) = s.deposited u.1)
    (h : ({ r'.toDividend with reserve := left } : Dividend Address) =
      serveAll s.collateralVault isClaim us (r.accrued bal supply)) :
    r.Evolves s (us.map Prod.fst) isClaim r' := by
  have ha₀ : (r.accrued bal supply).Valid := accrued_valid hr
  have ha : (r.accrued bal supply).Advances (serveAll s.collateralVault isClaim us _) :=
    serveAll_advances ha₀
  have hv : (serveAll s.collateralVault isClaim us (r.accrued bal supply)).Valid :=
    serveAll_valid ha₀
  rw [← h] at ha hv
  have ha' : (r.accrued bal supply).Advances r'.toDividend := ⟨ha.index_le, ha.indexOf_le⟩
  refine ⟨trans_of _ accrued_advances ha', ⟨hv.indexOf_le⟩, fun k h₀ hc hn => ?_⟩
  have ha₁ : Dividend.Erodes scale (s.deposited k) k 0 r.toDividend (r.accrued bal supply) :=
    accrued_erodes hr
  have he := ha₁.trans (serveAll_erodes h₀ hc (fun u hu' hk => hk ▸ hu u hu' (hk ▸ h₀)) hn)
  rw [← h, Nat.zero_add] at he
  exact ⟨he.index_le, he.le, he.ge⟩

theorem unchanged (hr : r.toDividend.Valid) : r.Evolves s l isClaim r where
  advances       := refl _
  valid          := hr
  erodes _ _ _ _ := Dividend.Erodes.rfl'.mono (Nat.zero_le _)

end Rewards.Evolves

theorem State.Serves.evolves (h : s.Serves this isClaim us s') (hv : s.Valid) :
    s.Evolves (us.map Prod.fst) isClaim s' where
  cvxRewards := by
    obtain ⟨bal, -, hd, -⟩ := h.cvx
    exact .of_serveAll hv.cvxRewards h.deposited hd
  rewards r hr := by
    obtain ⟨r', bal, left, hr', ht, -, hd, -⟩ := h.rewards r hr
    exact ⟨r', hr', ht, .of_serveAll (hv.rewards r (by simp [hr])) h.deposited hd⟩

theorem State.Keeps.evolves (h : s.Keeps this s') (hv : s.Valid) : s.Evolves l isClaim s' where
  cvxRewards := by
    rw [h.cvxRewards]
    exact .unchanged hv.cvxRewards
  rewards r hr := ⟨r, h.rewards.trans hr, rfl, .unchanged (hv.rewards r (by simp [hr]))⟩

theorem exec_evolves (h : exec this s act = .ok s') (hs : s.Deployed) :
    s.Evolves act.accounts act.isClaim s' := by
  obtain ⟨⟨r, hr⟩, hv⟩ := hs
  obtain hk | ⟨us, s₁, hu, hs, hk⟩ := exec_cases h hv (by simp [hr])
  case inl => exact hk.evolves hv
  case inr =>
    have he := hu ▸ hs.evolves hv
    exact {
      cvxRewards := hk.cvxRewards ▸ he.cvxRewards
      rewards r hr := hk.rewards ▸ he.rewards r hr
    }

theorem State.Others.keeps (h : s.Others this s') : s.Keeps this s' := by
  have hw := h.wrapper
  exact {
    rewards     := congrArg (·.rewards) hw
    cvxRewards  := congrArg (·.cvxRewards) hw
    crv         := congrArg (·.crv) hw
    cvx         := congrArg (·.cvx) hw
    convexToken := congrArg (·.convexToken) hw
    convexPool  := congrArg (·.convexPool) hw
    staking     := h.staking
    balance     := h.balance
  }

theorem State.Evolves.deployed (h : s.Evolves l isClaim s') (hs : s.Deployed) : s'.Deployed := by
  obtain ⟨⟨r, hr⟩, -⟩ := hs
  obtain ⟨r', hr', -, he⟩ := h.rewards r hr
  refine ⟨⟨r', hr'⟩, h.cvxRewards.valid, ?_⟩
  rw [hr']
  exact List.forall_mem_singleton.mpr he.valid

theorem Step.evolves (stp : Step this s s') (hs : s.Deployed) :
    ∃ l isClaim, s.Evolves l isClaim s' := by
  cases stp
  case call act h => exact ⟨_, _, exec_evolves h hs⟩
  case others h   => exact ⟨[], false, h.keeps.evolves hs.valid⟩

theorem step_deployed : Preserves (Step this) State.Deployed := by
  intro s s' stp hs
  obtain ⟨l, isClaim, he⟩ := stp.evolves hs
  exact he.deployed hs

theorem init_deployed {convexToken convexPool join cauldron crv cvx : Address}
    {poolId : Uint 256} {w : World} :
    (init this convexToken convexPool poolId join cauldron crv cvx w).Deployed where
  rewards := ⟨_, rfl⟩
  valid   := ⟨⟨fun _ => le_rfl⟩, List.forall_mem_singleton.mpr ⟨fun _ => le_rfl⟩⟩

-- The integrals only rise, and no account gets ahead of them.
structure Rewards.Advances (r r' : Rewards) : Prop where
  integral    : r.integral ≤ r'.integral
  integralFor : ∀ a, r.integralFor a ≤ r'.integralFor a
  behind      : ∀ a, r'.integralFor a ≤ r'.integral

structure State.Advances (s s' : State) : Prop where
  cvxRewards : s.cvxRewards.toDividend.Advances s'.cvxRewards.toDividend
  rewards    : ∀ r, s.rewards = [r] → ∃ r', s'.rewards = [r'] ∧ r'.rewardToken = r.rewardToken ∧
               r.toDividend.Advances r'.toDividend

namespace State.Advances

instance : Std.Refl State.Advances where
  refl _ := ⟨refl _, fun r hr => ⟨r, hr, rfl, refl _⟩⟩

theorem trans' {s₁ s₂ s₃ : State} (h : s₁.Advances s₂) (h' : s₂.Advances s₃) :
    s₁.Advances s₃ where
  cvxRewards := trans_of _ h.cvxRewards h'.cvxRewards
  rewards r hr := by
    obtain ⟨r₂, hr₂, ht₂, ha₂⟩ := h.rewards r hr
    obtain ⟨r₃, hr₃, ht₃, ha₃⟩ := h'.rewards r₂ hr₂
    exact ⟨r₃, hr₃, ht₃.trans ht₂, trans_of _ ha₂ ha₃⟩

instance : IsTrans State State.Advances where
  trans _ _ _ := trans'

end State.Advances

theorem Dividend.Advances.rewards {r' : Rewards} (h : r.toDividend.Advances r'.toDividend)
    (hv : r'.toDividend.Valid) : r.Advances r' :=
  ⟨h.index_le, h.indexOf_le, hv.indexOf_le⟩

theorem step_advances (hs : s.Deployed) (stp : Step this s s') : s.Advances s' := by
  obtain ⟨l, isClaim, he⟩ := stp.evolves hs
  refine ⟨he.cvxRewards.advances, fun r hr => ?_⟩
  obtain ⟨r', hr', ht, he⟩ := he.rewards r hr
  exact ⟨r', hr', ht, he.advances⟩

-- Whatever is called and whatever else happens, the integrals only rise, and so does what they were
-- when an account was served last.
theorem integrals_advance {convexToken convexPool join cauldron crv cvx : Address}
    {poolId : Uint 256} {w : World}
    (e : Steps (Step this) (init this convexToken convexPool poolId join cauldron crv cvx w) s)
    (e' : Steps (Step this) s s') :
    s.cvxRewards.Advances s'.cvxRewards ∧
    ∃ r r', s.rewards = [r] ∧ s'.rewards = [r'] ∧ r.rewardToken = crv ∧ r'.rewardToken = crv ∧
      r.toRewards.Advances r'.toRewards := by
  have hs := step_deployed.steps e init_deployed
  have hs' := step_deployed.steps e' hs
  have ha₀ := step_deployed.relates (fun _ _ => step_advances) e init_deployed
  have ha := step_deployed.relates (fun _ _ => step_advances) e' hs
  obtain ⟨r, hr, ht, -⟩ := ha₀.rewards _ rfl
  obtain ⟨r', hr', ht', had⟩ := ha.rewards r hr
  have hv' : r'.toDividend.Valid := hs'.valid.rewards r' (by simp [hr'])
  exact ⟨Dividend.Advances.rewards ha.cvxRewards hs'.valid.cvxRewards, r, r', hr, hr', ht,
    ht'.trans ht, Dividend.Advances.rewards had hv'⟩

namespace Sample

-- The wrapper, at address 1, has been given 100 tokens to wrap, and the pool has 100 of each reward.
def ledger (a : Address) : Ledger 256 Address :=
  ((Ledger.empty 256 Address).mint a 100).toOption.getD (.empty 256 Address)

def world : World where
  tokens t    := ⟨ledger (if t = 3 then 1 else 2), fun _ _ => 0⟩
  cauldrons _ := ⟨fun _ => ⟨0, 0, 0⟩, fun _ => ⟨0, 0⟩⟩
  pools _     := ⟨4, 3, 5, 0, fun _ => 0⟩

def start : State :=
  init 1 3 2 0 8 6 4 5 world

def wrapped : Call State :=
  exec 1 start (.wrap 7 7)

theorem exists_wrapped : ∃ s, wrapped = .ok s :=
  Call.exists_of_isOk (by decide +kernel)

theorem exists_served : ∃ s s', wrapped = .ok s ∧ exec 1 s (.userCheckpoint 7 7) = .ok s' := by
  have ⟨s', h⟩ := Call.exists_of_isOk
    (show (wrapped >>= (exec 1 · (.userCheckpoint 7 7))).isOk = true by decide +kernel)
  obtain ⟨s, hs, hs'⟩ := Call.bind_eq_ok.mp h
  exact ⟨s, s', hs, hs'⟩

end Sample

theorem integrals_advance_served : ∃ s s', Sample.wrapped = .ok s ∧
    exec 1 s (.userCheckpoint 7 7) = .ok s' ∧ s.cvxRewards.Advances s'.cvxRewards := by
  obtain ⟨s, s', hs, hs'⟩ := Sample.exists_served
  exact ⟨s, s', hs, hs', (integrals_advance (.single (.call _ hs)) (.single (.call _ hs'))).left⟩

-- A run in which nobody claims for `k`, and in which `k` has the same deposit whenever a function is
-- called. The accounts which are served include `k` exactly `n` times.
inductive Unclaimed (this k : Address) : ℕ → State → State → Prop
  | none {s : State} : Unclaimed this k 0 s s
  | call {s s₁ s₂ : State} {n : ℕ} (act : Action) :
    Unclaimed this k n s s₁ → exec this s₁ act = .ok s₂ → (act.isClaim → k ∉ act.accounts) →
    k ≠ s₁.collateralVault → s₁.deposited k = s.deposited k →
    Unclaimed this k (n + act.accounts.count k) s s₂
  | others {s s₁ s₂ : State} {n : ℕ} :
    Unclaimed this k n s s₁ → s₁.Others this s₂ → Unclaimed this k n s s₂

theorem Unclaimed.deployed {n : ℕ} (e : Unclaimed this k n s s') (hs : s.Deployed) :
    s'.Deployed := by
  induction e
  case none                  => exact hs
  case call act _ h _ _ _ hi => exact (exec_evolves h (hi hs)).deployed (hi hs)
  case others _ h hi =>
    have he : State.Evolves _ [] false _ := h.keeps.evolves (hi hs).valid
    exact he.deployed (hi hs)

theorem Unclaimed.erodes {n : ℕ} (e : Unclaimed this k n s s') (hs : s.Deployed) (h₀ : k ≠ 0) :
    Dividend.Erodes scale (s.deposited k) k n s.cvxRewards.toDividend s'.cvxRewards.toDividend ∧
    ∀ r, s.rewards = [r] → ∃ r', s'.rewards = [r'] ∧
      Dividend.Erodes scale (s.deposited k) k n r.toDividend r'.toDividend := by
  induction e
  case none => exact ⟨.rfl', fun r hr => ⟨r, hr, .rfl'⟩⟩
  case call s s₁ s₂ n act e h hc hv hd hi =>
    obtain ⟨hcvx, hrw⟩ := hi hs
    have he := exec_evolves h (e.deployed hs)
    refine ⟨hcvx.trans (hd ▸ he.cvxRewards.erodes k h₀ hv hc), fun r hr => ?_⟩
    obtain ⟨r₁, hr₁, he₁⟩ := hrw r hr
    obtain ⟨r₂, hr₂, -, he₂⟩ := he.rewards r₁ hr₁
    exact ⟨r₂, hr₂, he₁.trans (hd ▸ he₂.erodes k h₀ hv hc)⟩
  case others s s₁ s₂ n e h hi =>
    obtain ⟨hcvx, hrw⟩ := hi hs
    have hk := h.keeps
    refine ⟨hk.cvxRewards ▸ hcvx, fun r hr => ?_⟩
    obtain ⟨r₁, hr₁, he₁⟩ := hrw r hr
    exact ⟨r₁, hk.rewards.trans hr₁, he₁⟩

-- What an account with a deposit of `b` can claim.
def Rewards.due (r : Rewards) (b : ℕ) (a : Address) : ℕ :=
  r.claimable a + b * (r.integral - r.integralFor a) / scale

-- The same at a later integral, if the account is left alone until then.
def Rewards.dueAt (r : Rewards) (integral : Uint 256) (b : ℕ) (a : Address) : ℕ :=
  ({ r with integral } : Rewards).due b a

theorem Dividend.Erodes.rewards {r' : Rewards} {n : ℕ}
    (h : Dividend.Erodes scale b k n r.toDividend r'.toDividend) (hv : r.toDividend.Valid) :
    r'.due b k ≤ r.dueAt r'.integral b k ∧ r.dueAt r'.integral b k ≤ r'.due b k + n :=
  ⟨h.due_le scale_pos hv, h.le_due_add scale_pos hv⟩

-- Serving an account more often than necessary never gains it anything, and costs it at most one unit
-- of each token for each time.
theorem due_follows_integral {convexToken convexPool join cauldron crv cvx : Address}
    {poolId : Uint 256} {w : World} {n : ℕ}
    (e₀ : Steps (Step this) (init this convexToken convexPool poolId join cauldron crv cvx w) s)
    (e : Unclaimed this k n s s') (h₀ : k ≠ 0) :
    (s'.cvxRewards.due (s.deposited k) k ≤
        s.cvxRewards.dueAt s'.cvxRewards.integral (s.deposited k) k ∧
      s.cvxRewards.dueAt s'.cvxRewards.integral (s.deposited k) k ≤
        s'.cvxRewards.due (s.deposited k) k + n) ∧
    ∃ r r', s.rewards = [r] ∧ s'.rewards = [r'] ∧
      r'.toRewards.due (s.deposited k) k ≤ r.toRewards.dueAt r'.integral (s.deposited k) k ∧
      r.toRewards.dueAt r'.integral (s.deposited k) k ≤
        r'.toRewards.due (s.deposited k) k + n := by
  have hs := step_deployed.steps e₀ init_deployed
  obtain ⟨hcvx, hrw⟩ := e.erodes hs h₀
  obtain ⟨r, hr⟩ := hs.rewards
  obtain ⟨r', hr', he⟩ := hrw r hr
  exact ⟨Dividend.Erodes.rewards hcvx hs.valid.cvxRewards, r, r', hr, hr',
    Dividend.Erodes.rewards he (hs.valid.rewards r (by simp [hr]))⟩

-- Account 7 is served twice with what it has wrapped.
theorem due_follows_integral_served : ∃ s s', Sample.wrapped = .ok s ∧
    exec 1 s (.userCheckpoint 7 7) = .ok s' ∧
    s.cvxRewards.dueAt s'.cvxRewards.integral (s.deposited 7) 7 ≤
      s'.cvxRewards.due (s.deposited 7) 7 + 2 := by
  obtain ⟨s, s', hs, hs'⟩ := Sample.exists_served
  have hv : (7 : Address) ≠ s.collateralVault := by
    have h : Sample.wrapped.toOption.map (·.collateralVault) = some 8 := by decide +kernel
    rw [hs] at h
    have hc : s.collateralVault = 8 := Option.some.inj h
    rw [hc]
    decide
  exact ⟨s, s', hs, hs', (due_follows_integral (.single (.call _ hs))
    (.call (.userCheckpoint 7 7) .none hs' (by simp [Action.isClaim]) hv rfl) (by decide)).left.right⟩

end ConvexYieldWrapperMock
