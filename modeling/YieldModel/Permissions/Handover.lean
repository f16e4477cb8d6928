import YieldModel.Permissions.Control
import YieldModel.Permissions.Fragments

open AccessControl (ROOT LOCK)

namespace Permissions

-- The writes which decide who is in control.
def critical (w : Role × Bool) : Bool :=
  w.1.role = ROOT || w.1.role = LOCK

def Tx.control (tx : Tx) : List (Role × Bool) :=
  tx.writes.filter critical

def Proposal.control (p : Proposal) : List (Role × Bool) :=
  p.flatMap Tx.control

variable (gov : Governance) {κ ω : Type}

-- ROOT goes from the deployer to the cloak.
def handOver (host deployer : Address) : List (Role × Bool) :=
  [(⟨host, ROOT, gov.cloak⟩, true), (⟨host, ROOT, deployer⟩, false)]

-- What the fragments do about the control of hosts.
def Fragment.control : Fragment κ ω → List (Role × Bool)
  | grantRoot host userAddress                => [(⟨host, ROOT, userAddress⟩, true)]
  | revokeRoot host userAddress               => [(⟨host, ROOT, userAddress⟩, false)]
  | grantPermission permission                => [(permission, true)].filter critical
  | revokePermission permission               => [(permission, false)].filter critical
  | revokeOrchestration host userAddress role => [(⟨host, role, userAddress⟩, false)].filter critical
  | orchestrateCloak deployer                 => [(⟨gov.cloak, ROOT, deployer⟩, false)]
  | addAsHostToCloak host                     => [(⟨host, ROOT, gov.cloak⟩, true)]
  | orchestrateCauldron deployer cauldron     => handOver gov cauldron deployer
  | orchestrateLadle deployer cauldron ladle  =>
    [(⟨ladle, ROOT, gov.cloak⟩, true), (⟨cauldron, ROOT, deployer⟩, false)]
  | orchestrateWitch deployer witch           => handOver gov witch deployer
  | orchestrateJoin _ deployer join           => (handOver gov join deployer).reverse
  | orchestrateFYToken _ deployer fyToken     => (handOver gov fyToken deployer).reverse
  | orchestratePool deployer host | orchestrateYieldSpaceMultiOracle deployer host
  | orchestrateStrategy deployer _ _ host | orchestrateRewardsWrapper deployer host
  | orchestrateGiver host _ deployer | orchestrateTokenUpgrade deployer host
  | orchestratePoolRestorer deployer host | orchestrateShifter deployer _ host =>
    [(⟨host, ROOT, deployer⟩, false)]
  | orchestrateOracle _ deployer host | orchestrateConvexWrapper deployer host =>
    handOver gov host deployer
  | _ => []

variable {gov} {tx : Tx} {p p₁ p₂ : Proposal} {host a : Address} {role : Bytes4}
  {roles : List Bytes4}

theorem filter_writes : p.writes.filter critical = p.control :=
  List.filter_flatMap

@[simp]
theorem control_append : Proposal.control (p₁ ++ p₂) = Proposal.control p₁ ++ Proposal.control p₂ :=
  List.flatMap_append

@[simp]
theorem control_cons : Proposal.control (tx :: p) = tx.control ++ Proposal.control p :=
  rfl

@[simp]
theorem control_nil : Proposal.control [] = [] :=
  rfl

def plain (role : Bytes4) : Bool :=
  role ≠ ROOT && role ≠ LOCK

theorem critical_eq {b : Bool} : critical (⟨host, role, a⟩, b) = !plain role := by
  simp [critical, plain, Bool.not_and]

@[simp]
theorem control_grantRole_root :
    Tx.control ⟨host, .grantRole ROOT a⟩ = [(⟨host, ROOT, a⟩, true)] :=
  rfl

@[simp]
theorem control_revokeRole_root :
    Tx.control ⟨host, .revokeRole ROOT a⟩ = [(⟨host, ROOT, a⟩, false)] :=
  rfl

theorem control_grantRole (h : plain role = true) : Tx.control ⟨host, .grantRole role a⟩ = [] := by
  simp [Tx.control, Tx.writes, critical_eq, h]

theorem control_revokeRole (h : plain role = true) :
    Tx.control ⟨host, .revokeRole role a⟩ = [] := by
  simp [Tx.control, Tx.writes, critical_eq, h]

theorem control_grantRoles (h : roles.all plain = true) :
    Tx.control ⟨host, .grantRoles roles a⟩ = [] := by
  simp only [List.all_eq_true] at h
  simp only [Tx.control, Tx.writes, List.filter_map, List.map_eq_nil_iff, List.filter_eq_nil_iff]
  exact fun role hr => by simp [critical_eq, h role hr]

theorem control_revokeRoles (h : roles.all plain = true) :
    Tx.control ⟨host, .revokeRoles roles a⟩ = [] := by
  simp only [List.all_eq_true] at h
  simp only [Tx.control, Tx.writes, List.filter_map, List.map_eq_nil_iff, List.filter_eq_nil_iff]
  exact fun role hr => by simp [critical_eq, h role hr]

@[simp]
theorem control_add {ps : List Fragments.Permission} : Tx.control ⟨host, .add a ps⟩ = [] :=
  rfl

@[simp]
theorem control_remove {ps : List Fragments.Permission} : Tx.control ⟨host, .remove a ps⟩ = [] :=
  rfl

@[simp]
theorem control_other : Tx.control ⟨host, .other⟩ = [] :=
  rfl

theorem control_flatMap {α : Type} {as : List α} {g : α → Proposal} :
    Proposal.control (as.flatMap g) = as.flatMap fun a => (g a).control :=
  List.flatMap_assoc

theorem control_map {α : Type} {as : List α} {g : α → Tx} :
    Proposal.control (as.map g) = as.flatMap fun a => (g a).control := by
  simp [Proposal.control, List.flatMap_map]

-- The fragments for Joins and fyTokens do not touch ROOT or LOCK.

def Uncontrolled (p : Fragments.Proposal) : Prop :=
  (Proposal.ofFragments p).control = []

theorem uncontrolled_append {p₁ p₂ : Fragments.Proposal} (h₁ : Uncontrolled p₁)
    (h₂ : Uncontrolled p₂) : Uncontrolled (p₁ ++ p₂) := by
  unfold Uncontrolled Proposal.ofFragments at *
  rw [List.map_append, control_append, h₁, h₂, List.append_nil]

theorem uncontrolled_addJoin {sys : Fragments.System} {assetId : Bytes6} {join : Address} :
    Uncontrolled (Fragments.addJoin sys assetId join) := by
  simp (disch := decide +kernel) [Uncontrolled, Proposal.ofFragments, Fragments.addJoin,
    Data.ofFragments, control_grantRoles]

theorem uncontrolled_removeJoin {sys : Fragments.System} {ext : Fragments.Externals κ ω}
    {c : Fragments.Chain κ ω} {assetId : Bytes6} {p : Fragments.Proposal}
    (h : Fragments.removeJoin sys ext c assetId = .ok p) : Uncontrolled p := by
  simp only [Fragments.removeJoin, Call.bind_eq_ok] at h
  obtain ⟨_, -, h⟩ := h
  cases h
  simp (disch := decide +kernel) [Uncontrolled, Proposal.ofFragments, Data.ofFragments,
    control_revokeRoles]

theorem uncontrolled_drain {sys : Fragments.System} {c : Fragments.Chain κ ω}
    {joins : List (Address × Address)} {p₀ p : Fragments.Proposal} (h₀ : Uncontrolled p₀)
    (h : joins.foldlM (fun proposal (oldJoin, newJoin) => do
      let storedBalance ← c.storedBalance oldJoin
      let storedBalance ← Uint.cast 128 storedBalance
      return proposal ++ Fragments.drainJoin sys oldJoin newJoin storedBalance) p₀ = .ok p) :
    Uncontrolled p := by
  induction joins generalizing p₀
  case nil => cases h; exact h₀
  case cons j joins hi =>
    simp only [List.foldlM_cons, Call.bind_eq_ok] at h
    obtain ⟨p₁, ⟨_, -, _, -, h₁⟩, h⟩ := h
    cases h₁
    refine hi (uncontrolled_append h₀ ?_) h
    simp (disch := decide +kernel) [Uncontrolled, Proposal.ofFragments, Fragments.drainJoin,
      Data.ofFragments, control_grantRoles, control_revokeRoles]

theorem uncontrolled_build {sys : Fragments.System} {ext : Fragments.Externals κ ω}
    {c : Fragments.Chain κ ω} {f : Fragments.Fragment} {p : Fragments.Proposal}
    (h : Fragments.build sys ext c f = .ok p) : Uncontrolled p := by
  cases f
  case addJoin    => cases h; exact uncontrolled_addJoin
  case removeJoin => exact uncontrolled_removeJoin h
  case replaceJoin =>
    simp only [Fragments.build, Fragments.replaceJoin, Call.bind_eq_ok] at h
    obtain ⟨_, hr, h⟩ := h
    cases h
    exact uncontrolled_append (uncontrolled_removeJoin hr) uncontrolled_addJoin
  case addIlkToWitch ilk join =>
    simp only [Fragments.build, Fragments.addIlkToWitch] at h
    split at h
    case h_1 => cases h
    case h_2 =>
      simp only [Call.bind_eq_ok] at h
      obtain ⟨hasRole, -, h⟩ := h
      cases h
      refine uncontrolled_append rfl ?_
      split <;> simp (disch := decide +kernel) [Uncontrolled, Proposal.ofFragments,
        Data.ofFragments, control_grantRole]
  case drainJoins =>
    have h₀ : Uncontrolled [] := rfl
    exact uncontrolled_drain h₀ h
  all_goals
    cases h
    simp (disch := decide +kernel) [Uncontrolled, Proposal.ofFragments, Data.ofFragments,
      Fragments.addFYToken, Fragments.removeFYToken, Fragments.addBaseToWitch,
      Fragments.addFYTokenToWitch, control_grantRole, control_grantRoles, control_revokeRoles]

theorem control_addIfHeld {hosts : Hosts} {witch host : Address} :
    Proposal.control (addIfHeld gov hosts witch host role) = [] := by
  unfold addIfHeld
  split <;> rfl

theorem control_build {f : Fragment κ ω} (h : f.build gov = .ok p) : p.control = f.control gov := by
  cases f
  case onJoins sys ext seen fragment =>
    obtain ⟨p', hp, rfl⟩ := Call.map_eq_ok.mp h
    exact uncontrolled_build hp
  all_goals cases h
  case grantPermission     => simp [grantPermission, Tx.control, Tx.writes, Fragment.control]
  case revokePermission    => simp [revokePermission, Tx.control, Tx.writes, Fragment.control]
  case revokeOrchestration => simp [revokeOrchestration, Tx.control, Tx.writes, Fragment.control]
  case addLadleToCloak =>
    simp only [addLadleToCloak, control_cons, control_append, control_map, control_flatMap]
    simp [apply_ite, Fragment.control]
  case addWitchToCloak =>
    simp [addWitchToCloak, control_flatMap, control_addIfHeld, Fragment.control]
  case orchestrateJoin kind _ _ =>
    cases kind <;> simp (disch := decide +kernel) [JoinKind.orchestrate, orchestrateJoin,
      orchestrateFlashJoin, orchestrateNotionalJoin, orchestrateAnyJoin, addAsHostToCloak, grantRoot,
      revokeRoot, control_grantRoles, Fragment.control, handOver]
  case orchestrateOracle kind _ _ =>
    cases kind <;> simp (disch := decide +kernel) [OracleKind.orchestrate, orchestrateOracle,
      orchestrateChainlinkOracle, orchestrateChainlinkUSDOracle, orchestrateCompositeOracle,
      orchestrateCompoundOracle, orchestrateCvx3CrvOracle, orchestrateLidoOracle,
      orchestrateNotionalOracle, orchestrateStrategyOracle, orchestrateUniswapOracle,
      orchestrateYearnOracle, revokeRoot, control_grantRoles, Fragment.control, handOver]
  all_goals
    simp (disch := decide +kernel) [Fragment.control, handOver, grantRoot, revokeRoot, grantGovernors,
      revokeGovernors, grantDevelopers, revokeDevelopers, revokeCloakExecute, orchestrateCloak,
      addAsHostToCloak, addExecutorsToCloak, addFYTokenToCloak, addGiverToCloak, addLeverToCloak,
      orchestrateCauldron, orchestrateLadle, orchestrateLadleToCauldron, orchestrateWitch,
      orchestrateWitchToCauldron, orchestrateFYToken, orchestratePool, orchestrateAccumulatorOracle,
      orchestrateYieldSpaceMultiOracle, orchestrateStrategy, orchestrateRewardsWrapper,
      orchestrateConvexWrapper, orchestrateGiver, orchestrateLever, orchestrateTokenUpgrade,
      orchestratePoolRestorer, isolatePoolRestorer, orchestrateShifter, isolateShifter, replaceWitch,
      control_flatMap, control_map, control_grantRole, control_grantRoles, control_revokeRole,
      control_revokeRoles]

-- Runs of proposals, each of them built from a fragment.

abbrev Builds (gov : Governance) (fs : List (Fragment κ ω)) (ps : List Proposal) : Prop :=
  List.Forall₂ (fun f p => f.build gov = .ok p) fs ps

variable {timelock : Address} {S : Set Address} {hosts hosts' : Hosts} {fs : List (Fragment κ ω)}
  {ps : List Proposal} {w : Role × Bool}

def Hosts.run (timelock : Address) (hosts : Hosts) (ps : List Proposal) : Call Hosts :=
  ps.foldlM (Proposal.onHosts timelock) hosts

theorem Hosts.run_eq :
    hosts.run timelock ps = (ps.flatMap Proposal.writes).foldlM (write timelock) hosts := by
  induction ps generalizing hosts
  case nil => rfl
  case cons p ps hi =>
    simp only [Hosts.run, List.foldlM_cons, List.flatMap_cons, List.foldlM_append,
      Proposal.onHosts_eq]
    exact congrArg _ (funext fun _ => hi)

theorem filter_run (hb : Builds gov fs ps) :
    (ps.flatMap Proposal.writes).filter critical = fs.flatMap (Fragment.control gov) := by
  induction hb
  case nil => rfl
  case cons h _ hi =>
    rw [List.flatMap_cons, List.filter_append, filter_writes, control_build h, hi,
      List.flatMap_cons]

theorem harmless_of_not_critical (h : ¬critical w) : Harmless timelock w := by
  simp only [critical, Bool.or_eq_true, decide_eq_true_eq, not_or] at h
  exact ⟨h.right, fun hr => absurd hr h.left⟩

-- No call on a role fails, and the timelock stays in control, exactly if no fragment takes ROOT from
-- the timelock, or touches LOCK.
theorem keeps_control_iff (h : Governed gov.timelock S hosts) (hb : Builds gov fs ps)
    (hs : ∀ p ∈ ps, ∀ w ∈ p.writes, w.1.host ∈ S) :
    (∃ hosts', hosts.run gov.timelock ps = .ok hosts' ∧ Governed gov.timelock S hosts') ↔
    ∀ f ∈ fs, ∀ w ∈ f.control gov, Harmless gov.timelock w := by
  have hs : ∀ w ∈ ps.flatMap Proposal.writes, w.1.host ∈ S := by
    simpa [List.mem_flatMap] using fun r b p hp hw => hs p hp (r, b) hw
  rw [Hosts.run_eq, h.foldlM_write_iff hs]
  calc
    _ ↔ ∀ w ∈ (ps.flatMap Proposal.writes).filter critical, Harmless gov.timelock w := by
      refine forall_congr' fun w => ?_
      rw [List.mem_filter, and_imp]
      exact forall_congr' fun _ => ⟨fun hw _ => hw, fun hw =>
        if hc : critical w then hw hc else harmless_of_not_critical hc⟩
    _ ↔ _ := by
      rw [filter_run hb]
      simp only [List.mem_flatMap, forall_exists_index, and_imp]
      exact forall_comm.trans <| forall_congr' fun _ => forall_comm

theorem keeps_control_orchestrated : ∃ hosts',
    Hosts.run 1 (fun _ => .init 1) [orchestrateLadle ⟨1, 2⟩ 3 4 5, orchestrateWitch ⟨1, 2⟩ 3 6] =
    .ok hosts' ∧ Governed 1 Set.univ hosts' := by
  let fs : List (Fragment Unit Unit) := [.orchestrateLadle 3 4 5, .orchestrateWitch 3 6]
  have hb : Builds ⟨1, 2⟩ fs _ := .cons rfl (.cons rfl .nil)
  have hs : ∀ p ∈ [orchestrateLadle ⟨1, 2⟩ 3 4 5, orchestrateWitch ⟨1, 2⟩ 3 6],
      ∀ w ∈ p.writes, w.1.host ∈ Set.univ :=
    fun _ _ _ _ => Set.mem_univ _
  refine (keeps_control_iff governed_init hb hs).mpr fun f hf w hw => ?_
  simp only [fs, List.mem_cons, List.not_mem_nil, or_false] at hf
  obtain rfl | rfl := hf <;> simp [Fragment.control, handOver] at hw <;>
    obtain rfl | rfl := hw <;> exact ⟨by decide, by decide⟩

theorem Hosts.leaves_of_run (h : hosts.run timelock ps = .ok hosts') :
    Leaves hosts (ps.flatMap Proposal.writes) hosts' := by
  rw [Hosts.run_eq] at h
  exact leaves_of_foldlM h

-- ROOT after a run depends only on what the fragments do about control.
theorem held_root (hb : Builds gov fs ps) (h : hosts.run timelock ps = .ok hosts') :
    held hosts' ⟨host, ROOT, a⟩ =
    Overwrite.apply (held hosts) (fs.flatMap (Fragment.control gov)) ⟨host, ROOT, a⟩ := by
  rw [(Hosts.leaves_of_run h).held, ← filter_run hb]
  refine (Overwrite.apply_filter fun w _ e => ?_).symm
  simp [critical, e]

-- The cloak gets ROOT by orchestrations, anybody else only by name.
theorem control_gives {f : Fragment κ ω} (h : (⟨host, ROOT, a⟩, true) ∈ f.control gov) :
    a = gov.cloak ∨ f = .grantRoot host a ∨ f = .grantPermission ⟨host, ROOT, a⟩ := by
  cases f <;> simp_all [Fragment.control, handOver]

-- Nobody but the cloak gets ROOT unless he is named for it, and it is kept by those from whom no
-- fragment takes it. The fragment for the Ladle takes it on the Cauldron.
theorem root_iff (hb : Builds gov fs ps) (h : hosts.run timelock ps = .ok hosts')
    (ha : a ≠ gov.cloak) (hr : .grantRoot host a ∉ fs) (hp : .grantPermission ⟨host, ROOT, a⟩ ∉ fs) :
    held hosts' ⟨host, ROOT, a⟩ ↔
    held hosts ⟨host, ROOT, a⟩ ∧ ∀ f ∈ fs, (⟨host, ROOT, a⟩, false) ∉ f.control gov := by
  have hn : (⟨host, ROOT, a⟩, true) ∉ fs.flatMap (Fragment.control gov) := by
    intro hm
    obtain ⟨f, hf, hm⟩ := List.mem_flatMap.mp hm
    obtain ha' | rfl | rfl := control_gives hm
    · exact ha ha'
    · exact hr hf
    · exact hp hf
  rw [held_root hb h, Overwrite.apply_eq_iff_of_notMem hn]
  refine and_congr_right fun _ => ⟨fun hw f hf hm => ?_, fun hw w hm e => ?_⟩
  · exact hw _ (List.mem_flatMap_of_mem hf hm) rfl
  · obtain ⟨f, hf, hm⟩ := List.mem_flatMap.mp hm
    obtain ⟨k, b⟩ := w
    cases e
    cases b
    case false => exact hw f hf hm
    case true  => exact hn (List.mem_flatMap_of_mem hf hm)

theorem root_iff_ladle : ∃ hosts',
    Hosts.run 1 (fun _ => (AccessControl.init 1)._grantRole ROOT 3) [orchestrateLadle ⟨1, 2⟩ 3 4 5] =
    .ok hosts' ∧ ¬held hosts' ⟨4, ROOT, 3⟩ ∧ held hosts' ⟨5, ROOT, 3⟩ := by
  let fs : List (Fragment Unit Unit) := [.orchestrateLadle 3 4 5]
  have hb : Builds ⟨1, 2⟩ fs _ := .cons rfl .nil
  have e : Hosts.run 1 (fun _ => (AccessControl.init 1)._grantRole ROOT 3)
      [orchestrateLadle ⟨1, 2⟩ 3 4 5] = .ok _ :=
    rfl
  refine ⟨_, e, ?cauldron, ?ladle⟩
  case cauldron =>
    rw [root_iff hb e (by decide) (by simp [fs]) (by simp [fs])]
    simp [fs, Fragment.control]
  case ladle =>
    rw [root_iff hb e (by decide) (by simp [fs]) (by simp [fs])]
    exact ⟨by decide, by simp [fs, Fragment.control]⟩

end Permissions
