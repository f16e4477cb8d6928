import YieldModel.Objects.Locking
import YieldModel.Wands.Basic

open AccessControl (ROOT)

-- Who controls a contract after a wand has onboarded it.

namespace Wand

open CollateralWandBase ChainlinkCollateralWand FCashWand SeriesWand

variable {w : Wand} {ctx : Context} {r r₁ r' : Roles} {c c' : AccessControl} {a join x : Address}
variable {assetId oldAssetId seriesId : Bytes6}

inductive Onboarding
  | addSeries (seriesId baseId : Bytes6) (ilkIds : List Bytes6) (fyToken pool : Address)
  | addChainlinkCollateral (assetId : Bytes6) (joinAddress deployer : Address)
      (chainlinkSource : ChainlinkSource) (auctionLimit : AuctionLimit)
      (debtLimits : List DebtLimit) (seriesIlks : List SeriesIlk)
  | addfCashCollateral (assetId : Bytes6) (joinAddress : Address) (oldAssetId seriesId : Bytes6)
  | deployCollateral (assetId oldAssetId seriesId : Bytes6) (salt : Uint 256)

namespace Onboarding

def exec (w : Wand) (ctx : Context) (r : Roles) : Onboarding → Call Roles
  | addSeries seriesId baseId ilkIds fyToken pool =>
    SeriesWand.addSeries w ctx r seriesId baseId ilkIds fyToken pool
  | addChainlinkCollateral assetId joinAddress deployer chainlinkSource auctionLimit debtLimits
      seriesIlks =>
    ChainlinkCollateralWand.addChainlinkCollateral w ctx r assetId joinAddress deployer
      chainlinkSource auctionLimit debtLimits seriesIlks
  | addfCashCollateral assetId joinAddress oldAssetId seriesId =>
    FCashWand.addfCashCollateral w ctx r assetId joinAddress oldAssetId seriesId
  | deployCollateral assetId oldAssetId seriesId salt =>
    Prod.fst <$> FCashWand.deployCollateral w ctx r assetId oldAssetId seriesId salt

-- The contract which is onboarded, with the roles that it has before.
def contract (ctx : Context) (r : Roles) : Onboarding → Call (Address × AccessControl)
  | addSeries _ _ _ fyToken _                       => .ok (fyToken, r fyToken)
  | addChainlinkCollateral _ joinAddress _ _ _ _ _  => .ok (joinAddress, r joinAddress)
  | addfCashCollateral _ joinAddress _ _            => .ok (joinAddress, r joinAddress)
  | deployCollateral assetId oldAssetId _ salt      =>
    ctx.deploy oldAssetId assetId fCashAddress salt

-- When the cloak ends up with the control that the wand had over a contract with the roles `c`.
def HandsOver (w : Wand) (c : AccessControl) : Onboarding → Prop
  | addSeries ..                              => w.cloak ≠ w.this
  | addChainlinkCollateral _ _ deployer _ _ _ _ => w.cloak ≠ w.this ∧ deployer = w.this
  | addfCashCollateral ..                     => False
  | deployCollateral ..                       => w.cloak ≠ w.this ∧ c.hasRole ROOT w.cloak

end Onboarding

theorem Roles.call_eq_ok {f : AccessControl → Call AccessControl} :
    r.call a f = .ok r' ↔ ∃ c, f (r a) = .ok c ∧ r' = Function.update r a c := by
  simp [Roles.call, Call.map_eq_ok, @eq_comm _ _ r']

-- The accounts with ROOT stay the same, in all contracts.
def KeepsRoot (r r' : Roles) : Prop :=
  ∀ a x, (r' a).hasRole ROOT x ↔ (r a).hasRole ROOT x

theorem KeepsRoot.trans (h : KeepsRoot r r₁) (h' : KeepsRoot r₁ r') : KeepsRoot r r' :=
  fun a x => (h' a x).trans (h a x)

theorem KeepsRoot.of_call {f : AccessControl → Call AccessControl} (h : r.call a f = .ok r')
    (hf : ∀ c c', f c = .ok c' → ∀ x, c'.hasRole ROOT x ↔ c.hasRole ROOT x) : KeepsRoot r r' := by
  obtain ⟨c, hc, rfl⟩ := Roles.call_eq_ok.mp h
  intro b x
  by_cases hb : b = a
  case pos => subst hb; simpa using hf _ _ hc x
  case neg => simp [hb]

theorem KeepsRoot.of_grantRoles {sigs : List Bytes4} {account : Address}
    (h : r.call a (fun c => c.grantRoles w.this sigs account) = .ok r') (hs : ROOT ∉ sigs) :
    KeepsRoot r r' :=
  .of_call h fun _ _ hc _ => by simp [AccessControl.hasRole_grantRoles hc, hs]

theorem KeepsRoot.of_grantRole {sig : Bytes4} {account : Address}
    (h : r.call a (fun c => c.grantRole w.this sig account) = .ok r') (hs : ROOT ≠ sig) :
    KeepsRoot r r' :=
  .of_call h fun _ _ hc _ => by
    obtain ⟨-, rfl⟩ := AccessControl.grantRole_eq_ok.mp hc
    simp [hs]

theorem addAsset_keepsRoot (h : _addAsset w ctx r assetId join = .ok r') : KeepsRoot r r' := by
  simp only [_addAsset, Call.bind_eq_ok, Call.pure_eq_ok] at h
  obtain ⟨_, -, _, -, _, h, _, -, rfl⟩ := h
  exact .of_grantRoles h (by decide)

theorem makeIlk_keepsRoot {auctionLimit : AuctionLimit} {debtLimits : List DebtLimit}
    (h : _makeIlk w ctx r join auctionLimit debtLimits = .ok r') : KeepsRoot r r' := by
  simp only [_makeIlk, Call.bind_eq_ok, Call.pure_eq_ok] at h
  obtain ⟨_, -, _, h, _, -, rfl⟩ := h
  exact .of_grantRole h (by decide)

theorem joinOrchestration_keepsRoot
    (h : _joinOrchestration w ctx r assetId join oldAssetId seriesId = .ok r') :
    KeepsRoot r r' := by
  simp only [_joinOrchestration, Call.bind_eq_ok, Call.pure_eq_ok] at h
  obtain ⟨_, -, _, -, _, -, _, -, _, ha, _, -, _, hm, _, -, rfl⟩ := h
  exact (addAsset_keepsRoot ha).trans (makeIlk_keepsRoot hm)

theorem orchestrateJoin_root {deployer : Address}
    (h : _orchestrateJoin w r join deployer = .ok r') :
    (r' join).hasRole ROOT x ↔ x = w.cloak ∨ x ≠ deployer ∧ (r join).hasRole ROOT x := by
  simp only [_orchestrateJoin, Call.bind_eq_ok, Roles.call_eq_ok, AccessControl.revokeRole_eq_ok,
    AccessControl.grantRole_eq_ok] at h
  obtain ⟨_, ⟨_, ⟨-, rfl⟩, rfl⟩, _, ⟨-, rfl⟩, rfl⟩ := h
  simp

theorem revokeRoot_root (h : _revokeRoot w r join = .ok r') :
    (r' join).hasRole ROOT x ↔ x ≠ w.this ∧ (r join).hasRole ROOT x := by
  simp only [_revokeRoot, Roles.call_eq_ok, AccessControl.renounceRole_eq_ok] at h
  obtain ⟨_, ⟨-, rfl⟩, rfl⟩ := h
  simp

theorem orchestrateFyToken_root {fyToken : Address}
    (h : _orchestrateFyToken w r join fyToken = .ok r') :
    (r' fyToken).hasRole ROOT x ↔ x ≠ w.this ∧ (x = w.cloak ∨ (r fyToken).hasRole ROOT x) := by
  simp only [_orchestrateFyToken, Call.bind_eq_ok] at h
  obtain ⟨_, hj, _, hf, _, hg, hr⟩ := h
  have hk := (KeepsRoot.of_grantRoles hj (by decide)).trans (.of_grantRoles hf (by decide))
  simp only [Roles.call_eq_ok, AccessControl.grantRole_eq_ok,
    AccessControl.renounceRole_eq_ok] at hg hr
  obtain ⟨_, ⟨-, rfl⟩, rfl⟩ := hg
  obtain ⟨_, ⟨-, rfl⟩, rfl⟩ := hr
  simp [hk fyToken x]

theorem onboarding_handsOver_iff {o : Onboarding} (hc : o.contract ctx r = .ok (a, c))
    (hw : c.hasRole ROOT w.this) (h : o.exec w ctx r = .ok r') :
    (r' a).hasRole ROOT w.cloak ∧ ¬(r' a).hasRole ROOT w.this ↔ o.HandsOver w c := by
  cases o
  case addSeries =>
    cases hc
    simp only [Onboarding.exec, addSeries, Call.bind_eq_ok, Call.pure_eq_ok] at h
    obtain ⟨_, -, _, -, _, -, _, -, _, h, _, -, _, -, _, -, rfl⟩ := h
    simp [orchestrateFyToken_root h, Onboarding.HandsOver]
  case addChainlinkCollateral deployer _ _ _ _ =>
    cases hc
    simp only [Onboarding.exec, addChainlinkCollateral, Call.bind_eq_ok, Call.pure_eq_ok] at h
    obtain ⟨_, -, _, ho, _, ha, _, -, _, hm, _, -, rfl⟩ := h
    have hk := (addAsset_keepsRoot ha).trans (makeIlk_keepsRoot hm)
    rw [hk, hk, orchestrateJoin_root ho, orchestrateJoin_root ho]
    simp only [hw, true_or, true_and, and_true, not_or, not_not, ne_eq]
    exact and_congr (not_congr eq_comm) eq_comm
  case addfCashCollateral =>
    cases hc
    simp only [Onboarding.exec, addfCashCollateral, Call.bind_eq_ok] at h
    obtain ⟨_, -, h⟩ := h
    simp [joinOrchestration_keepsRoot h a _, hw, Onboarding.HandsOver]
  case deployCollateral =>
    simp only [Onboarding.exec, deployCollateral, Call.map_eq_ok, Call.bind_eq_ok,
      Call.pure_eq_ok] at h
    obtain ⟨_, ⟨_, -, d, hd, _, ho, _, hr, rfl⟩, rfl⟩ := h
    cases hc.symm.trans hd
    dsimp only at ho hr ⊢
    rw [revokeRoot_root hr, revokeRoot_root hr, joinOrchestration_keepsRoot ho]
    simp [Onboarding.HandsOver]

section Example

-- The wand 1, its ladle, witch, cloak and oracle.
def wand : Wand := ⟨1, 2, 3, 4, 5⟩

-- All other contracts have been deployed by 7, who has given ROOT to the wand as well, and who may
-- call all functions of the wand.
def roles : Roles :=
  Function.update (fun _ => (AccessControl.init 7)._grantRole ROOT 1) 1
    (((((AccessControl.init 7)._grantRole selector.addSeries 7)._grantRole
      selector.addChainlinkCollateral 7)._grantRole selector.addfCashCollateral 7)._grantRole
      selector.deployCollateral 7)

-- Contracts which accept every call, and a factory which leaves ROOT of the join 8 to the wand.
def Context.obliging : Context where
  sender                  := 7
  assets _                := 20
  lendingOracles _        := 21
  series _                := ⟨22, 0, 0⟩
  spotOracles _ _         := ⟨21, 1000000⟩
  debt _ _                := ⟨1000, 1, 6, 0⟩
  joins _                 := 23
  ilks _                  := ⟨3600, 1000000000000000000⟩
  limits _                := ⟨1000, 1, 6, 0⟩
  asset _                 := .ok 20
  underlying _            := .ok 20
  addAsset _ _            := .ok ()
  addSeries _ _ _         := .ok ()
  addIlks _ _             := .ok ()
  addPool _ _             := .ok ()
  addJoin _ _             := .ok ()
  setIlk _ _ _ _ _ _      := .ok ()
  setSpotOracle _ _ _ _   := .ok ()
  setDebtLimits _ _ _ _ _ := .ok ()
  setSource _ _ _ _ _     := .ok ()
  setNotionalSource _ _ _ := .ok ()
  deploy _ _ _ _          := .ok (8, .init 1)

def addSeries8 : Onboarding :=
  .addSeries 1 2 [3] 8 9

def addCollateral8 : Onboarding :=
  .addChainlinkCollateral 3 8 7 ⟨3, 20, 30⟩ ⟨3, 3600, 1000000000000000000, 1000, 1, 6⟩
    [⟨2, 3, 1000000, 1000, 1, 6⟩] [⟨1, [3]⟩]

theorem onboarding_handsOver_iff_series : ∃ r', addSeries8.exec wand .obliging roles = .ok r' ∧
    ((r' 8).hasRole ROOT 4 ∧ ¬(r' 8).hasRole ROOT 1 ↔ addSeries8.HandsOver wand (roles 8)) := by
  obtain ⟨r', h⟩ := Call.exists_of_isOk
    (show (addSeries8.exec wand .obliging roles).isOk = true by decide +kernel)
  exact ⟨r', h, onboarding_handsOver_iff rfl (by decide +kernel) h⟩

-- Whether the cloak and the wand have ROOT of the contract 8 in the end.
def rootOf8 (o : Onboarding) : Call (Bool × Bool) :=
  (fun r' => ((r' 8).hasRole ROOT 4, (r' 8).hasRole ROOT 1)) <$> o.exec wand .obliging roles

-- The wand stays in control of the chainlink collateral. The other two ways of onboarding a join do
-- not give ROOT to the cloak.
theorem onboarding_keeps_control :
    (¬∀ (w : Wand) (ctx : Context) (r r' : Roles) (o : Onboarding) (a : Address)
      (c : AccessControl), o.contract ctx r = .ok (a, c) → c.hasRole ROOT w.this →
      o.exec w ctx r = .ok r' → (r' a).hasRole ROOT w.cloak ∧ ¬(r' a).hasRole ROOT w.this) ∧
    rootOf8 (.addfCashCollateral 3 8 4 1) = .ok (false, true) ∧
    rootOf8 (.deployCollateral 3 4 1 0) = .ok (false, false) := by
  refine ⟨fun hn => ?_, by decide +kernel, by decide +kernel⟩
  have h : rootOf8 addCollateral8 = .ok (true, true) := by decide +kernel
  obtain ⟨r', h, hr⟩ := Call.map_eq_ok.mp h
  injection hr with _ hr
  exact (hn wand .obliging roles r' addCollateral8 8 _ rfl (by decide +kernel) h).right hr

end Example

end Wand
