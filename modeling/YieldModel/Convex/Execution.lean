import YieldModel.Convex.Basic
import YieldModel.Lib.Dividend

open Execution

namespace ConvexYieldWrapperMock

-- The rewards of one token are dividends, in units of `1 / scale`.
def scale : ℕ := 100000000000000000000

theorem scale_pos : 0 < scale := by
  decide

def Rewards.toDividend (r : Rewards) : Dividend Address where
  index     := r.integral
  reserve   := r.remaining
  indexOf a := r.integralFor a
  claimable a := r.claimable a

def Payout.toDividend (p : Payout) : Dividend Address :=
  { p.rewards.toDividend with reserve := p.bal }

-- The rewards when everything beyond what remains has just been received.
def Rewards.accrued (r : Rewards) (bal supply : Uint 256) : Dividend Address := { r.toDividend with
  index   := r.integral + (bal - r.remaining) * scale / supply
  reserve := bal
}

-- What is done for one account, and for a list of accounts.
def serve (collateralVault : Address) (isClaim : Bool) (d : Dividend Address)
    (u : Address × Uint 256) : Dividend Address :=
  if u.1 = 0 ∨ u.1 = collateralVault then d
  else if isClaim then d.pay scale u.2 u.1
  else d.settle scale u.2 u.1

def serveAll (collateralVault : Address) (isClaim : Bool) (accounts : List (Address × Uint 256))
    (d : Dividend Address) : Dividend Address :=
  accounts.foldl (serve collateralVault isClaim) d

-- An amount of a token is sent from `this`, and nothing else happens.
structure World.Spends (this token : Address) (w : World) (n : ℕ) (w' : World) : Prop where
  left      : (w.balanceOf token this : ℕ) ≤ w'.balanceOf token this + n
  supply    : (w'.tokens token).balances.totalSupply = (w.tokens token).balances.totalSupply
  others    : ∀ t ≠ token, w'.tokens t = w.tokens t
  cauldrons : w'.cauldrons = w.cauldrons
  pools     : w'.pools = w.pools

variable {this token cv a : Address} {isClaim : Bool} {r r' : Rewards} {w w' w'' : World}
  {p p' : Payout} {u : Address × Uint 256} {us : List (Address × Uint 256)} {n b supply : Uint 256}
  {m k : ℕ}

theorem scale_val : ((100000000000000000000 : Uint 256) : ℕ) = scale := by
  decide

theorem receiveable_eq_ok (h : r.receiveable a b = .ok n) :
    r.integralFor a ≤ r.integral ∧ (n : ℕ) = r.toDividend.due scale b a := by
  simp only [Rewards.receiveable, Call.bind_eq_ok, Uint.sub_eq_ok, Uint.mul_eq_ok, Uint.div_eq_ok,
    Uint.add_eq_ok, scale_val] at h
  obtain ⟨d, hd, product, hp, earned, ⟨-, he⟩, hn⟩ := h
  refine ⟨Fin.le_def.mpr (by omega), ?_⟩
  have hs : (d : ℕ) = r.integral - r.integralFor a := by omega
  rw [hn, he, hp, hs]
  rfl

theorem accrue_eq_ok {d : Uint 256} (h : r.accrue d supply = .ok r') :
    r'.toDividend = { r.toDividend with index := r.integral + d * scale / supply } := by
  simp only [Rewards.accrue, Call.bind_eq_ok, Uint.mul_eq_ok, Uint.div_eq_ok, Uint.add_eq_ok,
    scale_val, Call.pure_eq_ok] at h
  obtain ⟨scaled, hs, share, ⟨-, hh⟩, integral, hi, rfl⟩ := h
  simp only [Rewards.toDividend, hi, hh, hs]

namespace World.Spends

theorem none : Spends this token w 0 w where
  left      := le_rfl
  supply    := rfl
  others    := fun _ _ => rfl
  cauldrons := rfl
  pools     := rfl

theorem trans (h : Spends this token w m w') (h' : Spends this token w' k w'') :
    Spends this token w (m + k) w'' where
  left      := by have := h.left; have := h'.left; omega
  supply    := h'.supply.trans h.supply
  others    := fun t ht => (h'.others t ht).trans (h.others t ht)
  cauldrons := h'.cauldrons.trans h.cauldrons
  pools     := h'.pools.trans h.pools

end World.Spends

theorem transfer_spends (h : w.transfer token this a n = .ok w') : w.Spends this token n w' := by
  simp only [World.transfer, Call.bind_eq_ok, Call.pure_eq_ok, ERC20.transfer] at h
  obtain ⟨t, ht, rfl⟩ := h
  have ht := ERC20.transfer_eq_ok ht
  exact {
    left      := by simpa [World.balanceOf, ERC20.balanceOf] using ht.le_add
    supply    := by simpa using ht.supply
    others    := fun t ht => by simp [ht]
    cauldrons := rfl
    pools     := rfl
  }

theorem update_indexOf (r : Rewards) (a : Address) (c : Uint 256) :
    (r.update a c).toDividend.indexOf =
    Function.update r.toDividend.indexOf a r.toDividend.index :=
  Function.comp_update Fin.val r.integralFor a r.integral

theorem update_claimable (r : Rewards) (a : Address) (c : Uint 256) :
    (r.update a c).toDividend.claimable = Function.update r.toDividend.claimable a c :=
  Function.comp_update Fin.val r.claimable a c

-- An account which is up to date is not changed if it is settled.
theorem settle_of_le {d : Dividend Address} (hd : d.Valid) (h : d.index ≤ d.indexOf a) :
    d.settle scale m a = d := by
  have he : d.indexOf a = d.index := le_antisymm (hd.indexOf_le a) h
  apply Dividend.ext <;> simp [Dividend.settle, Dividend.due, Dividend.pending, ← he]

-- An account is paid what it is due, or all that it is due is nothing.
theorem update_pays {bal : Uint 256} (hn : (n : ℕ) = r.toDividend.due scale b a)
    (hb : (bal : ℕ) + n = k) (w : World) :
    Payout.toDividend ⟨r.update a 0, w, bal⟩ =
    ({ r.toDividend with reserve := k } : Dividend Address).pay scale b a := by
  apply Dividend.ext
  case index     => rfl
  case reserve   => exact (Nat.eq_sub_of_add_eq hb).trans (congrArg (k - ·) hn)
  case indexOf   => exact update_indexOf ..
  case claimable => exact update_claimable ..

theorem update_settles {bal : Uint 256} (hn : (n : ℕ) = r.toDividend.due scale b a) (w : World) :
    Payout.toDividend ⟨r.update a n, w, bal⟩ =
    ({ r.toDividend with reserve := bal } : Dividend Address).settle scale b a := by
  apply Dividend.ext
  case index     => rfl
  case reserve   => rfl
  case indexOf   => exact update_indexOf ..
  case claimable => exact (update_claimable ..).trans (congrArg _ hn)

theorem updateUser_eq_ok (h : updateUser this token cv isClaim p u = .ok p')
    (hp : p.toDividend.Valid) :
    p'.toDividend = serve cv isClaim p.toDividend u ∧
    p.rewards.remaining = p'.rewards.remaining ∧
    ∃ n, p.world.Spends this token n p'.world ∧ (p'.bal : ℕ) + n = p.bal := by
  unfold updateUser at h
  unfold serve
  split at h
  case isTrue hu =>
    cases h
    exact ⟨(if_pos hu).symm, rfl, 0, .none, rfl⟩
  case isFalse hu =>
    rw [if_neg hu]
    split at h
    case isTrue hc =>
      simp only [Call.bind_eq_ok] at h
      obtain ⟨n, hn, h⟩ := h
      obtain ⟨-, hn⟩ := receiveable_eq_ok hn
      rw [if_pos hc]
      split at h
      case isTrue h0 =>
        simp only [Call.bind_eq_ok, Uint.sub_eq_ok, Call.pure_eq_ok] at h
        obtain ⟨w, hw, bal, hb, rfl⟩ := h
        exact ⟨update_pays hn hb w, rfl, n, transfer_spends hw, hb⟩
      case isFalse h0 =>
        simp only [Call.pure_eq_ok] at h
        subst h
        have hz : (n : ℕ) = 0 := Nat.eq_zero_of_not_pos h0
        have hc : p.rewards.claimable u.1 = 0 :=
          Fin.ext (Nat.eq_zero_of_add_eq_zero_right (hn.symm.trans hz))
        refine ⟨?_, rfl, 0, .none, rfl⟩
        rw [hc]
        exact update_pays hn (by rw [hz]; rfl) p.world
    case isFalse hc =>
      rw [if_neg hc]
      split at h
      case isTrue hl =>
        simp only [Call.bind_eq_ok, Call.pure_eq_ok] at h
        obtain ⟨n, hn, rfl⟩ := h
        obtain ⟨-, hn⟩ := receiveable_eq_ok hn
        exact ⟨update_settles hn p.world, rfl, 0, .none, rfl⟩
      case isFalse hl =>
        cases h
        exact ⟨(settle_of_le hp (not_lt.mp hl)).symm, rfl, 0, .none, rfl⟩

theorem serve_valid {d : Dividend Address} (hd : d.Valid) : (serve cv isClaim d u).Valid := by
  unfold serve
  split
  case isTrue  => exact hd
  case isFalse =>
    split
    case isTrue  => exact Dividend.pay_valid hd
    case isFalse => exact Dividend.settle_valid hd

theorem serveAll_valid {d : Dividend Address} (hd : d.Valid) : (serveAll cv isClaim us d).Valid := by
  induction us generalizing d
  case nil          => exact hd
  case cons u us hi => exact hi (serve_valid hd)

-- The loop over the accounts.
theorem foldlM_updateUser_eq_ok (h : us.foldlM (updateUser this token cv isClaim) p = .ok p')
    (hp : p.toDividend.Valid) :
    p'.toDividend = serveAll cv isClaim us p.toDividend ∧
    p.rewards.remaining = p'.rewards.remaining ∧
    ∃ n, p.world.Spends this token n p'.world ∧ (p'.bal : ℕ) + n = p.bal := by
  induction us generalizing p
  case nil => cases h; exact ⟨rfl, rfl, 0, .none, rfl⟩
  case cons u us hi =>
    simp only [List.foldlM_cons, Call.bind_eq_ok] at h
    obtain ⟨p₁, h₁, h⟩ := h
    obtain ⟨hd₁, hr₁, n₁, hw₁, hb₁⟩ := updateUser_eq_ok h₁ hp
    obtain ⟨hd₂, hr₂, n₂, hw₂, hb₂⟩ := hi h (hd₁ ▸ serve_valid hp)
    exact ⟨by rw [hd₂, hd₁]; rfl, hr₁.trans hr₂, n₁ + n₂, hw₁.trans hw₂, by omega⟩

theorem accrued_valid {bal : Uint 256} (hr : r.toDividend.Valid) : (r.accrued bal supply).Valid where
  indexOf_le a := (hr.indexOf_le a).trans (Nat.le_add_right ..)

-- If nothing is missing, then what has been accrued has been received.
theorem accrued_eq_receive {bal : Uint 256} (h : r.remaining ≤ bal) :
    r.accrued bal supply = r.toDividend.receive scale supply (bal - r.remaining) :=
  Dividend.ext rfl (Nat.add_sub_cancel' h).symm rfl rfl

-- What is done to the rewards in one token: `left` is what is left of the balance when `n` have been
-- claimed.
structure Rewards.Distributes (this token cv : Address) (isClaim : Bool)
    (us : List (Address × Uint 256)) (supply : Uint 256) (r : Rewards) (w : World) (left n : ℕ)
    (r' : Rewards) (w' : World) : Prop where
  dividend : ({ r'.toDividend with reserve := left } : Dividend Address) =
             serveAll cv isClaim us (r.accrued (w.balanceOf token this) supply)
  spends   : w.Spends this token n w'
  balance  : left + n = w.balanceOf token this

theorem foldlM_distributes {bal : Uint 256} (hv : r.toDividend.Valid)
    (hr : r'.toDividend = { r.toDividend with
      index := r.integral + (bal - r.remaining) * scale / supply })
    (hb : bal = w.balanceOf token this)
    (h : us.foldlM (updateUser this token cv isClaim) ⟨r', w, bal⟩ = .ok p) (x : Uint 256) :
    ∃ n, r.Distributes this token cv isClaim us supply w p.bal n { p.rewards with remaining := x }
      p.world := by
  subst hb
  have he : Payout.toDividend ⟨r', w, w.balanceOf token this⟩ =
      r.accrued (w.balanceOf token this) supply := by
    simp only [Payout.toDividend, hr]
    rfl
  obtain ⟨hd, -, n, hw, hn⟩ := foldlM_updateUser_eq_ok h (he ▸ accrued_valid hv)
  exact ⟨n, hd.trans (congrArg _ he), hw, hn⟩

theorem calcCvxIntegral_eq_ok
    (h : _calcCvxIntegral this cv token us supply isClaim r w = .ok (r', w'))
    (hv : r.toDividend.Valid) :
    r.remaining ≤ w.balanceOf token this ∧
    ∃ n, r.Distributes this token cv isClaim us supply w r'.remaining n r' w' := by
  simp only [_calcCvxIntegral, Call.bind_eq_ok, Uint.sub_eq_ok, Call.pure_eq_ok,
    Prod.mk.injEq] at h
  obtain ⟨d, hd, r₁, hr₁, p, hp, rfl, rfl⟩ := h
  have hs : (d : ℕ) = w.balanceOf token this - r.remaining := by omega
  refine ⟨Fin.le_def.mpr (by omega), foldlM_distributes hv ?_ rfl hp p.bal⟩
  split at hr₁
  case isTrue => rw [accrue_eq_ok hr₁, hs]
  case isFalse hn =>
    cases hr₁
    have hz : (d : ℕ) * scale / supply = 0 := by
      by_cases hp : 0 < supply
      case pos =>
        have hd : ¬0 < (d : ℕ) := fun h => hn ⟨hp, h⟩
        rw [Nat.eq_zero_of_not_pos hd, zero_mul, Nat.zero_div]
      case neg =>
        have hp : ¬0 < (supply : ℕ) := hp
        rw [Nat.eq_zero_of_not_pos hp, Nat.div_zero]
    rw [← hs, hz]
    rfl

theorem calcRewardIntegral_eq_ok {r r' : RewardType}
    (h : _calcRewardIntegral this cv us supply isClaim r w = .ok (r', w'))
    (hv : r.toDividend.Valid) :
    r'.rewardToken = r.rewardToken ∧
    ∃ left n, r.Distributes this r.rewardToken cv isClaim us supply w left n r'.toRewards w' ∧
    (left < 2 ^ 128 → left = r'.remaining) := by
  simp only [_calcRewardIntegral, Call.bind_eq_ok, Call.pure_eq_ok, Prod.mk.injEq] at h
  obtain ⟨r₁, hr₁, p, hp, rfl, rfl⟩ := h
  refine ⟨rfl, p.bal, ?_⟩
  have hd : r₁.toDividend = { r.toDividend with
      index := r.integral + (w.balanceOf r.rewardToken this - r.remaining) * scale / supply } := by
    split at hr₁
    case isTrue =>
      simp only [Call.bind_eq_ok, Uint.sub_eq_ok] at hr₁
      obtain ⟨d, hd, hr₁⟩ := hr₁
      have hs : (d : ℕ) = w.balanceOf r.rewardToken this - r.remaining := by omega
      split at hr₁
      case isTrue => rw [accrue_eq_ok hr₁, hs]
      case isFalse hn =>
        cases hr₁
        rw [← hs, Nat.eq_zero_of_not_pos hn, zero_mul, Nat.zero_div]
        rfl
    case isFalse hn =>
      cases hr₁
      rw [Nat.eq_zero_of_not_pos hn, Nat.div_zero]
      rfl
  obtain ⟨n, hn⟩ := foldlM_distributes hv hd rfl hp
    (if p.bal ≠ p.rewards.remaining then Uint.truncate 256 (Uint.truncate 128 p.bal)
      else p.rewards.remaining)
  refine ⟨n, hn, fun hl => ?_⟩
  dsimp only
  split
  case isTrue =>
    have hb := p.bal.isLt
    rw [Uint.truncate_val, Uint.truncate_val, Nat.mod_eq_of_lt hl, Nat.mod_eq_of_lt hb]
  case isFalse hn => rw [not_not.mp hn]

-- Tokens only come in for `this`.
structure World.Receives (this : Address) (w w' : World) : Prop where
  balance   : ∀ t, w.balanceOf t this ≤ w'.balanceOf t this
  supply    : ∀ t, (w'.tokens t).balances.totalSupply = (w.tokens t).balances.totalSupply
  cauldrons : w'.cauldrons = w.cauldrons
  pools     : w'.pools = w.pools

theorem transfer_receives (h : w.transfer token a this n = .ok w') : w.Receives this w' := by
  simp only [World.transfer, Call.bind_eq_ok, Call.pure_eq_ok, ERC20.transfer] at h
  obtain ⟨t, ht, rfl⟩ := h
  have ht := ERC20.transfer_eq_ok ht
  refine ⟨?balance, ?supply, rfl, rfl⟩
  case balance =>
    intro t'
    refine Fin.le_def.mpr ?_
    by_cases he : t' = token <;> simp only [World.balanceOf, ERC20.balanceOf, he,
      Function.update_self, Function.update_of_ne, ne_eq, not_false_eq_true, le_refl]
    by_cases ha : a = this
    case pos => exact (ha ▸ ht.self ha).ge
    case neg => exact Nat.le.intro (ht.received ha).symm
  case supply =>
    intro t'
    by_cases he : t' = token
    case pos => simpa [he] using ht.supply
    case neg => simp [he]

theorem getReward_receives {pool sender : Address} (h : w.getReward pool sender this = .ok w') :
    w.Receives this w' := by
  simp only [World.getReward, Call.bind_eq_ok] at h
  obtain ⟨w₁, h₁, h₂⟩ := h
  have h₁ := transfer_receives h₁
  have h₂ := transfer_receives h₂
  exact {
    balance   := fun t => (h₁.balance t).trans (h₂.balance t)
    supply    := fun t => (h₂.supply t).trans (h₁.supply t)
    cauldrons := h₂.cauldrons.trans h₁.cauldrons
    pools     := h₂.pools.trans h₁.pools
  }

end ConvexYieldWrapperMock
