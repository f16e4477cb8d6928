import YieldModel.Convex.Integrals

open Execution Tally

namespace ConvexYieldWrapperMock

variable {this a : Address} {s s' : State} {act : Action} {v : Bytes12} {l : List Bytes12}
  {us : List (Address × Uint 256)} {isClaim : Bool}

-- No vault is listed twice for an account. The vaults which have been removed are all zero.
def State.Distinct (s : State) : Prop :=
  ∀ a, ∀ v ≠ 0, (s.vaults a).count v ≤ 1

-- What a function does to the lists of vaults.
inductive State.Lists (s : State) : State → Prop
  | same {s' : State} : s'.vaults = s.vaults → s.Lists s'
  | add {s' : State} (v : Bytes12) (a : Address) : v ∉ s.vaults a →
    s'.vaults = Function.update s.vaults a (s.vaults a ++ [v]) → s.Lists s'
  | remove {s' : State} (v : Bytes12) (a : Address) :
    s'.vaults = Function.update s.vaults a ((s.vaults a).map fun u => if u = v then 0 else u) →
    s.Lists s'

theorem updateRewards_vaults (h : s.updateRewards this us isClaim = .ok s') :
    s'.vaults = s.vaults := by
  simp only [State.updateRewards, Call.bind_eq_ok, Call.pure_eq_ok] at h
  obtain ⟨_, -, _, -, _, -, rfl⟩ := h
  rfl

theorem checkpoint_vaults {a₀ a₁ : Address} (h : s._checkpoint this a₀ a₁ = .ok s') :
    s'.vaults = s.vaults := by
  simp only [State._checkpoint, Call.bind_eq_ok] at h
  obtain ⟨_, -, _, -, h⟩ := h
  exact updateRewards_vaults h

theorem exec_lists (h : exec this s act = .ok s') : s.Lists s' := by
  cases act <;> simp only [exec, State.wrap, State.unwrap, State.getReward, State.userCheckpoint,
    State._checkpointAndClaim, State.addVault, Call.bind_eq_ok, Call.require_eq_ok,
    Call.pure_eq_ok] at h
  case addVault v =>
    obtain ⟨_, -, _, hv, rfl⟩ := h
    exact .add v _ (fun hm => hv v hm rfl) rfl
  case removeVault v a => subst h; exact .remove v a rfl
  case wrap =>
    obtain ⟨_, -, s₁, h₁, _, -, _, -, rfl⟩ := h
    have hv := checkpoint_vaults h₁
    exact .same hv
  case unwrap =>
    obtain ⟨_, -, s₁, h₁, _, -, _, -, _, -, _, -, rfl⟩ := h
    have hv := checkpoint_vaults h₁
    exact .same hv
  case getReward =>
    obtain ⟨_, -, h⟩ := h
    exact .same (updateRewards_vaults h)
  case userCheckpoint => exact .same (checkpoint_vaults h)
  case transfer | transferFrom =>
    obtain ⟨_, -, rfl⟩ := h
    exact .same rfl
  case addRewards =>
    subst h
    unfold State.addRewards
    split <;> exact .same rfl
  all_goals
    subst h
    exact .same rfl

theorem count_remove_le {u : Bytes12} (hv : v ≠ 0) :
    (l.map fun w => if w = u then 0 else w).count v ≤ l.count v := by
  induction l
  case nil => exact le_rfl
  case cons w l hi =>
    simp only [List.map_cons, List.count_cons, beq_iff_eq]
    refine Nat.add_le_add hi ?_
    split <;> split <;> simp_all

theorem State.Lists.distinct (h : s.Lists s') (hs : s.Distinct) : s'.Distinct := by
  intro b v hv
  cases h
  case same h => exact h ▸ hs b v hv
  case add u a hu h =>
    rw [h]
    by_cases hb : b = a
    case neg => simpa [hb] using hs b v hv
    case pos =>
      have hc := hs a v hv
      rw [hb, Function.update_self, List.count_append, List.count_singleton]
      by_cases huv : u = v
      case pos => simp [huv, List.count_eq_zero.mpr (huv ▸ hu)]
      case neg => simpa [huv] using hc
  case remove u a h =>
    rw [h]
    by_cases hb : b = a
    case neg => simpa [hb] using hs b v hv
    case pos =>
      rw [hb, Function.update_self]
      exact (count_remove_le hv).trans (hs a v hv)

theorem step_distinct : Preserves (Step this) State.Distinct := by
  intro s s' stp hs
  cases stp
  case call act h => exact (exec_lists h).distinct hs
  case others h   => exact fun a v hv => (congrArg (·.vaults) h.wrapper) ▸ hs a v hv

namespace State

-- Accounts whose deposits do not count.
def Exempt (s : State) (a : Address) : Prop :=
  a = 0 ∨ a = s.collateralVault

instance : DecidablePred s.Exempt :=
  fun a => inferInstanceAs (Decidable (a = 0 ∨ a = s.collateralVault))

-- The tokens which are held by these accounts, first of all by the Join.
def held (s : State) (a : Address) : ℕ :=
  if s.Exempt a then s.token.balanceOf a else 0

-- The collateral in a vault which is on the list of its owner.
def registered (s : State) (v : Bytes12) : ℕ :=
  let owner := ((s.cauldrons s.cauldron).vaults v).owner
  if v ≠ 0 ∧ ¬s.Exempt owner ∧ (s.vaults owner).contains v then
    ((s.cauldrons s.cauldron).balances v).ink
  else
    0

end State

theorem collateral_eq (hs : s.Distinct) (a : Address) :
    s.collateral a = total fun v => if v ∈ s.vaults a then s.ink a v else 0 := by
  refine sum_map_eq_total fun v hv => hs a v fun h => hv ?_
  simp [State.ink, h]

theorem total_collateral (hs : s.Distinct) :
    (total fun a => if s.Exempt a then 0 else s.collateral a) = total s.registered := by
  have hc (a : Address) : (if s.Exempt a then 0 else s.collateral a) =
      total fun v => if ((s.cauldrons s.cauldron).vaults v).owner = a then s.registered v else 0 := by
    by_cases ha : s.Exempt a
    case pos =>
      rw [if_pos ha, total_eq_zero]
      intro v
      simp only [State.registered]
      split
      case isTrue ho  => rw [ho, if_neg fun h => h.right.left ha]
      case isFalse ho => rfl
    case neg =>
      rw [if_neg ha, collateral_eq hs]
      refine total_congr fun v => ?_
      simp only [State.ink, State.registered]
      by_cases ho : ((s.cauldrons s.cauldron).vaults v).owner = a
      case pos => 
        simp only [ho, ha, List.contains_iff_mem, not_false_eq_true, true_and, and_true]
        split <;> simp_all
      case neg => simp [ho]
  rw [total_congr hc, total, total]
  simp only [total]
  rw [Finset.sum_comm]
  refine Finset.sum_congr rfl fun v _ => ?_
  simp

-- Every vault which is on the list of its owner counts exactly once, and so does every token, unless
-- it belongs to an account which is exempt. So the deposits are within the supply just if the exempt
-- accounts hold as many tokens as there is collateral in such vaults.
theorem deposits_eq {convexToken convexPool join cauldron crv cvx : Address} {poolId : Uint 256}
    {w : World}
    (e : Steps (Step this) (init this convexToken convexPool poolId join cauldron crv cvx w) s) :
    total s.deposited + total s.held = s.token.balances.totalSupply + total s.registered ∧
    (total s.deposited ≤ s.token.balances.totalSupply ↔ total s.registered ≤ total s.held) := by
  suffices h : total s.deposited + total s.held =
      s.token.balances.totalSupply + total s.registered from ⟨h, by omega⟩
  have hs : s.Distinct := by
    refine step_distinct.steps e fun a v _ => ?_
    exact (List.count_nil (a := v)).trans_le (Nat.zero_le 1)
  rw [← total_collateral hs, ← s.token.balances.total_eq]
  simp only [total, ← Finset.sum_add_distrib]
  refine Finset.sum_congr rfl fun a _ => ?_
  by_cases ha : s.Exempt a
  case pos =>
    have hd : s.deposited a = 0 := if_pos ha
    rw [hd, State.held, if_pos ha, if_pos ha, Nat.zero_add, Nat.add_zero]
    rfl
  case neg =>
    have hd : s.deposited a = s.token.balanceOf a + s.collateral a := if_neg ha
    rw [hd, State.held, if_neg ha, if_neg ha, Nat.add_zero]
    rfl

theorem deposits_eq_wrapped : ∃ s, Sample.wrapped = .ok s ∧
    total s.deposited + total s.held = s.token.balances.totalSupply + total s.registered := by
  obtain ⟨s, hs⟩ := Sample.exists_wrapped
  exact ⟨s, hs, (deposits_eq (.single (.call _ hs))).left⟩

end ConvexYieldWrapperMock
