import YieldModel.Convex.Integrals

open Execution Tally

namespace ConvexYieldWrapperMock

variable {this cv k : Address} {s s' s₁ : State} {act : Action} {isClaim : Bool}
  {us : List (Address × Uint 256)} {d : Dividend Address} {r r' : Rewards} {v w : Address → ℕ}
  {bal supply : Uint 256} {left : ℕ}

-- The reserve of the rewards in one token suffices for everything that can be claimed, given what
-- the accounts have deposited, and the contract has it.
structure Rewards.Funded (r : Rewards) (w : Address → ℕ) (bal : ℕ) : Prop where
  valid   : r.toDividend.Valid
  solvent : r.toDividend.Solvent scale w
  left    : r.remaining ≤ bal

-- All tokens which are staked, and the rewards, are different ones.
structure State.Separate (s : State) : Prop where
  crv_cvx         : s.crv ≠ s.cvx
  crv_convexToken : s.crv ≠ s.convexToken
  cvx_convexToken : s.cvx ≠ s.convexToken
  crv_staking     : s.crv ≠ (s.pools s.convexPool).stakingToken
  cvx_staking     : s.cvx ≠ (s.pools s.convexPool).stakingToken

structure State.Sound (this : Address) (s : State) : Prop where
  separate   : s.Separate
  cvxRewards : s.cvxRewards.Funded s.deposited (s.balanceOf s.cvx this)
  rewards    : ∃ r, s.rewards = [r] ∧ r.rewardToken = s.crv ∧
               r.Funded s.deposited (s.balanceOf s.crv this)

def Rewards.UpToDate (r : Rewards) (a : Address) : Prop :=
  r.integralFor a = r.integral

-- A step in which no account gains deposits but those which have just been served, from a state in
-- which all deposits together are within the supply. There is less CRV than 128 bits can count.
structure Orderly (this : Address) (s s' : State) : Prop where
  step    : Step this s s'
  covered : total s.deposited ≤ s.token.balances.totalSupply
  crv     : ((s.tokens s.crv).balances.totalSupply : ℕ) < 2 ^ 128
  gains   : ∀ a, s'.deposited a ≤ s.deposited a ∨
            s'.cvxRewards.UpToDate a ∧ ∀ r ∈ s'.rewards, r.UpToDate a

theorem serve_solvent {u : Address × Uint 256} (hd : d.Solvent scale w)
    (hu : u.1 ≠ 0 → (u.2 : ℕ) = w u.1) : (serve cv isClaim d u).Solvent scale w := by
  unfold serve
  split
  case isTrue  => exact hd
  case isFalse h =>
    rw [hu (not_or.mp h).left]
    split
    case isTrue  => exact hd.pay
    case isFalse => exact hd.settle

theorem serveAll_solvent (hd : d.Solvent scale w) (hu : ∀ u ∈ us, u.1 ≠ 0 → (u.2 : ℕ) = w u.1) :
    (serveAll cv isClaim us d).Solvent scale w := by
  induction us generalizing d
  case nil => exact hd
  case cons u us hi =>
    have ⟨hu, hus⟩ := List.forall_mem_cons.mp hu
    exact hi (serve_solvent hd hu) hus

theorem Rewards.Funded.serveAll {bal₀ : ℕ} (h : r.Funded w bal₀) (hb : r.remaining ≤ bal)
    (hw : total w ≤ supply) (hu : ∀ u ∈ us, u.1 ≠ 0 → (u.2 : ℕ) = w u.1)
    (he : ({ r'.toDividend with reserve := left } : Dividend Address) =
      ConvexYieldWrapperMock.serveAll cv isClaim us (r.accrued bal supply))
    (hl : left = r'.remaining) {bal' : ℕ} (hb' : left ≤ bal') : r'.Funded w bal' := by
  subst hl
  have ha : (r.accrued bal supply).Solvent scale w := by
    rw [accrued_eq_receive hb]
    exact h.solvent.receive h.valid hw
  have hs : (ConvexYieldWrapperMock.serveAll cv isClaim us _).Solvent scale w :=
    serveAll_solvent ha hu
  have hv : (ConvexYieldWrapperMock.serveAll cv isClaim us (r.accrued bal supply)).Valid :=
    serveAll_valid (accrued_valid h.valid)
  rw [← he] at hs hv
  exact ⟨hv, hs, hb'⟩

theorem Rewards.Funded.reweigh {bal' : ℕ} (h : r.Funded v left) (hl : left ≤ bal')
    (hw : ∀ a, w a ≤ v a ∨ r.UpToDate a) : r.Funded w bal' where
  valid   := h.valid
  solvent := h.solvent.reweigh fun a => (hw a).imp_right (congrArg Fin.val)
  left    := h.left.trans hl

theorem State.Serves.deposited_eq (h : s.Serves this isClaim us s') : s'.deposited = s.deposited := by
  rw [h.frame]
  rfl

theorem State.Serves.separate (h : s.Serves this isClaim us s') (hs : s.Separate) : s'.Separate := by
  rw [h.frame]
  exact ⟨hs.crv_cvx, hs.crv_convexToken, hs.cvx_convexToken, hs.crv_staking, hs.cvx_staking⟩

theorem State.Serves.addresses (h : s.Serves this isClaim us s') : s'.crv = s.crv ∧ s'.cvx = s.cvx := by
  rw [h.frame]
  exact ⟨rfl, rfl⟩

theorem State.Serves.sound (h : s.Serves this isClaim us s') (hs : s.Sound this)
    (hc : total s.deposited ≤ s.token.balances.totalSupply)
    (hcrv : ((s.tokens s.crv).balances.totalSupply : ℕ) < 2 ^ 128) : s'.Sound this := by
  have ⟨hcrv', hcvx'⟩ := h.addresses
  refine ⟨h.separate hs.separate, ?_, ?_⟩
  case refine_1 =>
    obtain ⟨bal, hb, hd, hl⟩ := h.cvx
    rw [h.deposited_eq, hcvx']
    exact hs.cvxRewards.serveAll hb hc h.deposited hd rfl hl
  case refine_2 =>
    obtain ⟨r, hr, ht, hf⟩ := hs.rewards
    obtain ⟨r', bal, left, hr', ht', hb, hd, hl, hbs, hbal, he⟩ := h.rewards r hr
    rw [ht] at hb hbs hbal ht'
    have hrb : r.remaining ≤ bal := Fin.le_def.mpr (hf.left.trans hb)
    have hlt : left < 2 ^ 128 := (hl.trans hbs).trans_lt hcrv
    rw [h.deposited_eq, hcrv']
    exact ⟨r', hr', ht', hf.serveAll hrb hc h.deposited hd (he hlt) (hbal hs.separate.crv_cvx)⟩

theorem State.Keeps.separate (h : s.Keeps this s') (hs : s.Separate) : s'.Separate := by
  have hp : (s'.pools s'.convexPool).stakingToken = (s.pools s.convexPool).stakingToken := by
    rw [h.staking, h.convexPool]
  constructor <;> simp only [h.crv, h.cvx, h.convexToken, hp]
  exacts [hs.crv_cvx, hs.crv_convexToken, hs.cvx_convexToken, hs.crv_staking, hs.cvx_staking]

theorem State.Keeps.sound (h : s.Keeps this s') (hs : s.Sound this)
    (hg : ∀ a, s'.deposited a ≤ s.deposited a ∨
      s'.cvxRewards.UpToDate a ∧ ∀ r ∈ s'.rewards, r.UpToDate a) : s'.Sound this := by
  have hd := hs.separate
  refine ⟨h.separate hd, ?_, ?_⟩
  case refine_1 =>
    have hb := h.balance s.cvx hd.cvx_convexToken hd.cvx_staking
    rw [h.cvxRewards, h.cvx]
    exact hs.cvxRewards.reweigh hb fun a => (hg a).imp_right fun hu => h.cvxRewards ▸ hu.left
  case refine_2 =>
    obtain ⟨r, hr, ht, hf⟩ := hs.rewards
    have hb := h.balance s.crv hd.crv_convexToken hd.crv_staking
    have hr' : r ∈ s'.rewards := by simp [h.rewards, hr]
    rw [h.crv]
    exact ⟨r, h.rewards.trans hr, ht, hf.reweigh hb fun a => (hg a).imp_right fun hu => hu.right r hr'⟩

theorem State.Sound.valid (hs : s.Sound this) : s.Deployed := by
  obtain ⟨r, hr, -, hf⟩ := hs.rewards
  refine ⟨⟨r, hr⟩, hs.cvxRewards.valid, ?_⟩
  rw [hr]
  exact List.forall_mem_singleton.mpr hf.valid

theorem orderly_sound : Preserves (Orderly this) (·.Sound this) := by
  intro s s' ho hs
  cases ho.step
  case others h => exact h.keeps.sound hs ho.gains
  case call act h =>
    have hv := hs.valid
    obtain ⟨r, hr⟩ := hv.rewards
    obtain hk | ⟨us, s₁, -, hs₁, hk⟩ := exec_cases h hv.valid (by simp [hr])
    case inl => exact hk.sound hs ho.gains
    case inr =>
      exact hk.sound (hs₁.sound hs ho.covered ho.crv) (hs₁.deposited_eq ▸ ho.gains)

theorem Rewards.Funded.total_due_le (h : r.Funded w left) :
    total (fun a => r.due (w a) a) ≤ r.remaining :=
  h.solvent.total_due_le scale_pos

-- In an orderly run, what all accounts together can claim of a token is never more than what remains
-- of it, and this is there.
theorem always_solvent {convexToken convexPool join cauldron crv cvx : Address} {poolId : Uint 256}
    {w : World} (hs : (init this convexToken convexPool poolId join cauldron crv cvx w).Separate)
    (e : Steps (Orderly this) (init this convexToken convexPool poolId join cauldron crv cvx w) s) :
    (total (fun a => s.cvxRewards.due (s.deposited a) a) ≤ s.cvxRewards.remaining ∧
      s.cvxRewards.remaining ≤ s.balanceOf s.cvx this) ∧
    ∃ r, s.rewards = [r] ∧ r.rewardToken = s.crv ∧
      total (fun a => r.toRewards.due (s.deposited a) a) ≤ r.remaining ∧
      r.remaining ≤ s.balanceOf s.crv this := by
  have hz (w : Address → ℕ) : (⟨0, 0, fun _ => 0, fun _ => 0⟩ : Dividend Address).Solvent scale w := by
    simp [Dividend.Solvent, Dividend.debt, total]
  have h₀ : (init this convexToken convexPool poolId join cauldron crv cvx w).Sound this :=
    ⟨hs, ⟨⟨fun _ => le_rfl⟩, hz _, Nat.zero_le _⟩, _, rfl, rfl, ⟨fun _ => le_rfl⟩, hz _, Nat.zero_le _⟩
  have h := orderly_sound.steps e h₀
  obtain ⟨r, hr, ht, hf⟩ := h.rewards
  exact ⟨⟨h.cvxRewards.total_due_le, h.cvxRewards.left⟩, r, hr, ht, hf.total_due_le, hf.left⟩

theorem sample_separate : Sample.start.Separate := by
  constructor <;> decide

-- Account 7 wraps for itself. Nothing has been deposited before, so the integrals are still zero.
theorem always_solvent_wrapped : ∃ s, Sample.wrapped = .ok s ∧
    total (fun a => s.cvxRewards.due (s.deposited a) a) ≤ s.cvxRewards.remaining := by
  obtain ⟨s, hs⟩ := Sample.exists_wrapped
  have hd : s.Deployed := step_deployed (.call _ hs) init_deployed
  have hz : Sample.wrapped.toOption.map (fun s => (s.cvxRewards.integral, s.rewards.map (·.integral))) =
      some (0, [0]) := by
    decide +kernel
  rw [hs] at hz
  obtain ⟨hz₁, hz₂⟩ := Prod.mk.inj (Option.some.inj hz)
  have hu {r : Rewards} (hr : r.toDividend.Valid) (h : r.integral = 0) (a : Address) : r.UpToDate a :=
    Fin.ext (le_antisymm (hr.indexOf_le a) (by rw [h]; exact Nat.zero_le _))
  refine ⟨s, hs, (always_solvent sample_separate (.single ⟨.call _ hs, ?_, ?_, fun a => .inr ⟨?_, ?_⟩⟩)).left.left⟩
  case refine_1 =>
    refine (total_eq_zero fun a => ?_).trans_le (Nat.zero_le _)
    unfold State.deposited
    split <;> rfl
  case refine_2 => decide +kernel
  case refine_3 => exact hu hd.valid.cvxRewards hz₁ a
  case refine_4 =>
    intro r hr
    refine hu (hd.valid.rewards r hr) ?_ a
    have hm : r.integral ∈ s.rewards.map (·.integral) := List.mem_map_of_mem hr
    rw [hz₂] at hm
    exact List.mem_singleton.mp hm

end ConvexYieldWrapperMock
