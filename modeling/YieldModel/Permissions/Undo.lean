import YieldModel.Permissions.Handover

namespace Permissions

variable {timelock : Address} {hosts hosts' : Hosts} {p q : Proposal} {ps : List Proposal}
  {G R : List Role}

-- Proposals which only give, or only take roles.

def Grants (p : Proposal) (G : List Role) : Prop :=
  p.writes = G.map (·, true)

def Revokes (p : Proposal) (R : List Role) : Prop :=
  p.writes = R.map (·, false)

theorem Grants.append (hp : Grants p G) (hq : Grants q R) : Grants (p ++ q) (G ++ R) := by
  unfold Grants at *
  rw [writes_append, hp, hq, List.map_append]

theorem Grants.flatMap {α : Type} {g : α → Proposal} {G : α → List Role} {as : List α}
    (h : ∀ a, Grants (g a) (G a)) : Grants (as.flatMap g) (as.flatMap G) := by
  induction as
  case nil => rfl
  case cons a as hi => exact (h a).append hi

theorem Revokes.append (hp : Revokes p G) (hq : Revokes q R) : Revokes (p ++ q) (G ++ R) := by
  unfold Revokes at *
  rw [writes_append, hp, hq, List.map_append]

theorem Revokes.flatMap {α : Type} {g : α → Proposal} {G : α → List Role} {as : List α}
    (h : ∀ a, Revokes (g a) (G a)) : Revokes (as.flatMap g) (as.flatMap G) := by
  induction as
  case nil => rfl
  case cons a as hi => exact (h a).append hi

theorem grants_singleton (h : Grants p G) : Grants [p].flatten G := by
  rwa [List.flatten_singleton]

theorem flatMap_writes : ps.flatMap Proposal.writes = Proposal.writes ps.flatten := by
  induction ps
  case nil => rfl
  case cons p ps hi => rw [List.flatMap_cons, List.flatten_cons, writes_append, hi]

-- A proposal takes back what others gave.
theorem undone_iff (hp : Grants ps.flatten G) (hq : Revokes q R)
    (h : hosts.run timelock (ps ++ [q]) = .ok hosts') :
    held hosts' = held hosts ↔
    (∀ r ∈ R, ¬held hosts r) ∧ ∀ r ∈ G, r ∈ R ∨ held hosts r := by
  have hw : (ps ++ [q]).flatMap Proposal.writes = G.map (·, true) ++ R.map (·, false) := by
    rw [← hp, ← hq, List.flatMap_append, flatMap_writes, List.flatMap_singleton]
  rw [(Hosts.leaves_of_run h).held, hw, Overwrite.apply_set_reset_iff]
  simp

variable {gov : Governance} {accounts : List Address} {host account : Address}
  {roles : List Bytes4} {r : Role}

def rolesOn (host account : Address) (roles : List Bytes4) : List Role :=
  roles.map (⟨host, ·, account⟩)

theorem mem_rolesOn :
    r ∈ rolesOn host account roles ↔ r.host = host ∧ r.role ∈ roles ∧ r.account = account := by
  obtain ⟨h, s, a⟩ := r
  simp only [rolesOn, List.mem_map, Role.mk.injEq]
  exact ⟨fun ⟨_, hs, hh, e, ha⟩ => ⟨hh.symm, e ▸ hs, ha.symm⟩,
    fun ⟨hh, hs, ha⟩ => ⟨s, hs, hh.symm, rfl, ha.symm⟩⟩

-- The roles of some accounts on the timelock and on the cloak.
def governance (gov : Governance) (accounts : List Address) (onTimelock onCloak : List Bytes4) :
    List Role :=
  accounts.flatMap fun a => rolesOn gov.timelock a onTimelock ++ rolesOn gov.cloak a onCloak

theorem mem_governance {onTimelock onCloak : List Bytes4} :
    r ∈ governance gov accounts onTimelock onCloak ↔ r.account ∈ accounts ∧
    (r.host = gov.timelock ∧ r.role ∈ onTimelock ∨ r.host = gov.cloak ∧ r.role ∈ onCloak) := by
  simp only [governance, List.mem_flatMap, List.mem_append, mem_rolesOn]
  constructor
  case mp =>
    rintro ⟨a, ha, ⟨hh, hr, rfl⟩ | ⟨hh, hr, rfl⟩⟩
    · exact ⟨ha, .inl ⟨hh, hr⟩⟩
    · exact ⟨ha, .inr ⟨hh, hr⟩⟩
  case mpr =>
    rintro ⟨ha, ⟨hh, hr⟩ | ⟨hh, hr⟩⟩
    · exact ⟨_, ha, .inl ⟨hh, hr, rfl⟩⟩
    · exact ⟨_, ha, .inr ⟨hh, hr, rfl⟩⟩

-- What governors lose.

def governorsOnTimelock : List Bytes4 :=
  [selector.propose, selector.proposeRepeated, selector.approve, selector.executeProposal,
    selector.executeRepeated]

def governorsOnCloak : List Bytes4 :=
  [selector.plan, selector.cancel, selector.execute, selector.restore, selector.terminate]

theorem grants_grantGovernors : Grants (grantGovernors gov accounts) (accounts.flatMap fun a =>
    rolesOn gov.timelock a [selector.propose, selector.approve, selector.executeProposal] ++
    rolesOn gov.cloak gov.timelock governorsOnCloak) :=
  Grants.flatMap fun _ => rfl

theorem revokes_revokeGovernors : Revokes (revokeGovernors gov accounts)
    (governance gov accounts governorsOnTimelock governorsOnCloak) :=
  Revokes.flatMap fun _ => rfl

-- To revoke governors does not undo that they were granted: the roles on the cloak were given to
-- the timelock, which keeps them.
theorem governors_undone_iff
    (h : hosts.run timelock [grantGovernors gov accounts, revokeGovernors gov accounts] =
      .ok hosts') :
    held hosts' = held hosts ↔
    (∀ r ∈ governance gov accounts governorsOnTimelock governorsOnCloak, ¬held hosts r) ∧
    (accounts = [] ∨ gov.timelock ∈ accounts ∨
      ∀ s ∈ governorsOnCloak, held hosts ⟨gov.cloak, s, gov.timelock⟩) := by
  rw [undone_iff (grants_singleton grants_grantGovernors) revokes_revokeGovernors h]
  refine and_congr_right fun _ => ?_
  constructor
  case mp =>
    intro hg
    refine or_iff_not_imp_left.mpr fun hn => or_iff_not_imp_left.mpr fun ht s hs => ?_
    obtain ⟨a, ha⟩ := List.exists_mem_of_ne_nil _ hn
    have hm := hg ⟨gov.cloak, s, gov.timelock⟩ <| List.mem_flatMap.mpr
      ⟨a, ha, List.mem_append_right _ <| mem_rolesOn.mpr ⟨rfl, hs, rfl⟩⟩
    exact hm.resolve_left fun hr => ht (mem_governance.mp hr).left
  case mpr =>
    intro hg r hr
    obtain ⟨a, ha, hr⟩ := List.mem_flatMap.mp hr
    simp only [List.mem_append, mem_rolesOn] at hr
    rw [mem_governance]
    obtain ⟨hh, hr, rfl⟩ | ⟨hh, hr, e⟩ := hr
    case inl =>
      have hs : [selector.propose, selector.approve, selector.executeProposal] ⊆
          governorsOnTimelock := by
        simp [governorsOnTimelock]
      exact .inl ⟨ha, .inl ⟨hh, hs hr⟩⟩
    case inr =>
      obtain rfl | ht | hk := hg
      · cases ha
      · exact .inl ⟨e ▸ ht, .inr ⟨hh, hr⟩⟩
      · obtain ⟨_, s, _⟩ := r
        cases hh
        cases e
        exact .inr (hk s hr)

theorem governors_not_undone : ∃ hosts', Hosts.run 1 (fun _ => .init 1)
    [grantGovernors ⟨1, 2⟩ [5], revokeGovernors ⟨1, 2⟩ [5]] = .ok hosts' ∧
    held hosts' ≠ held fun _ => .init 1 := by
  have h : Hosts.run 1 (fun _ => .init 1)
      [grantGovernors ⟨1, 2⟩ [5], revokeGovernors ⟨1, 2⟩ [5]] = .ok _ :=
    rfl
  refine ⟨_, h, (governors_undone_iff h).not.mpr ?_⟩
  rintro ⟨-, ha | ha | hk⟩
  · cases ha
  · revert ha; decide
  · exact absurd (hk selector.plan <| .head _) (by decide)

-- Developers get their roles themselves.

theorem grants_grantDevelopers : Grants (grantDevelopers gov accounts)
    (governance gov accounts [selector.propose, selector.executeProposal] [selector.execute]) :=
  Grants.flatMap fun _ => rfl

theorem revokes_revokeDevelopers : Revokes (revokeDevelopers gov accounts)
    (governance gov accounts [selector.propose, selector.proposeRepeated, selector.executeProposal,
      selector.executeRepeated] [selector.execute]) :=
  Revokes.flatMap fun _ => rfl

theorem developers_undone_iff
    (h : hosts.run timelock [grantDevelopers gov accounts, revokeDevelopers gov accounts] =
      .ok hosts') :
    held hosts' = held hosts ↔
    ∀ r ∈ governance gov accounts [selector.propose, selector.proposeRepeated,
      selector.executeProposal, selector.executeRepeated] [selector.execute], ¬held hosts r := by
  rw [undone_iff (grants_singleton grants_grantDevelopers) revokes_revokeDevelopers h]
  refine and_iff_left fun r hr => .inl ?_
  obtain ⟨ha, hr⟩ := mem_governance.mp hr
  refine mem_governance.mpr ⟨ha, hr.imp_left <| And.imp_right fun hr => ?_⟩
  have hs : [selector.propose, selector.executeProposal] ⊆ [selector.propose,
      selector.proposeRepeated, selector.executeProposal, selector.executeRepeated] := by
    simp
  exact hs hr

-- A Witch is given roles by one fragment for each contract, and they are all taken by another.

variable {sys : Fragments.System} {cauldron witch join : Address} {seen : Hosts}
  {joins fyTokenOf : Bytes6 → Address} {bases fyTokens : List Address}
  {ilk : Governance.Ilk} {ilks : List (Governance.Ilk × Address)} {ips : List Fragments.Proposal}
  {lines : List Governance.AuctionLineAndLimit} {baseIds seriesIds : List Bytes6}

def takenFromWitch (cauldron witch : Address) (bases fyTokens ilks : List Address) : List Role :=
  rolesOn cauldron witch [selector.give, selector.slurp] ++
  bases.flatMap (rolesOn · witch [selector.join]) ++
  fyTokens.flatMap (rolesOn · witch [selector.burn]) ++
  ilks.flatMap (rolesOn · witch [selector.exit])

theorem mem_takenFromWitch {ilks : List Address} :
    r ∈ takenFromWitch cauldron witch bases fyTokens ilks ↔ r.account = witch ∧
    (r.host = cauldron ∧ r.role ∈ [selector.give, selector.slurp] ∨
    r.host ∈ bases ∧ r.role = selector.join ∨ r.host ∈ fyTokens ∧ r.role = selector.burn ∨
    r.host ∈ ilks ∧ r.role = selector.exit) := by
  simp only [takenFromWitch, List.mem_append, List.mem_flatMap, mem_rolesOn, List.mem_singleton]
  grind

theorem revokes_replaceWitch :
    Revokes (replaceWitch joins fyTokenOf witch cauldron lines baseIds seriesIds)
      (takenFromWitch cauldron witch (baseIds.map joins) (seriesIds.map fyTokenOf)
        ((lines.map (·.ilkId)).eraseDups.map joins)) := by
  have hm : ∀ (host : Bytes6 → Address) (role : Bytes4) (ids : List Bytes6),
      Revokes (ids.map fun id => ⟨host id, .revokeRole role witch⟩)
        ((ids.map host).flatMap (rolesOn · witch [role])) := by
    intro host role ids
    induction ids
    case nil => rfl
    case cons id ids hi =>
      have h : Revokes [⟨host id, .revokeRole role witch⟩] (rolesOn (host id) witch [role]) := rfl
      exact h.append hi
  have hc : Revokes [⟨cauldron, .revokeRoles [selector.give, selector.slurp] witch⟩]
      (rolesOn cauldron witch [selector.give, selector.slurp]) :=
    rfl
  exact ((hc.append (hm _ _ _)).append (hm _ _ _)).append (hm _ _ _)

-- The role on a Join is only given if it was missing when the proposal was built.
def givenForIlks (seen : Hosts) (witch : Address) (joins : List Address) : List Role :=
  joins.flatMap fun join =>
    if held seen ⟨join, selector.exit, witch⟩ then [] else rolesOn join witch [selector.exit]

theorem grants_addIlkToWitch {p : Fragments.Proposal}
    (h : Fragments.addIlkToWitch sys seen.view ilk join = .ok p) :
    Grants (.ofFragments p) (givenForIlks seen sys.witch [join]) := by
  unfold Fragments.addIlkToWitch at h
  split at h
  case h_1 => cases h
  case h_2 =>
    simp only [Call.bind_eq_ok] at h
    obtain ⟨b, hb, h⟩ := h
    cases h
    cases hb
    unfold givenForIlks
    rw [List.flatMap_singleton]
    by_cases hh : (seen join).hasRole Fragments.selector.exit sys.witch
    case pos =>
      have hs : held seen ⟨join, selector.exit, sys.witch⟩ := hh
      rw [if_pos hs, if_neg (not_not.mpr hh)]
      rfl
    case neg =>
      have hs : ¬held seen ⟨join, selector.exit, sys.witch⟩ := hh
      rw [if_neg hs, if_pos hh]
      rfl

theorem grants_ilks (h : List.Forall₂ (fun (ilk, join) p =>
      Fragments.addIlkToWitch sys seen.view ilk join = .ok p) ilks ips) :
    Grants (ips.map Proposal.ofFragments).flatten (givenForIlks seen sys.witch (ilks.map (·.2))) := by
  induction h
  case nil => rfl
  case cons hp _ hi =>
    have h := (grants_addIlkToWitch hp).append hi
    rwa [givenForIlks, givenForIlks, ← List.flatMap_append] at h

theorem grants_map {α : Type} {g : α → Proposal} {G : α → List Role} {as : List α}
    (h : ∀ a, Grants (g a) (G a)) : Grants (as.map g).flatten (as.flatMap G) := by
  rw [← List.flatMap_def]
  exact Grants.flatMap h

def givenToWitch (seen : Hosts) (cauldron witch : Address) (bases fyTokens ilks : List Address) :
    List Role :=
  rolesOn cauldron witch [selector.give, selector.slurp] ++
  bases.flatMap (rolesOn · witch [selector.join]) ++
  fyTokens.flatMap (rolesOn · witch [selector.burn]) ++
  givenForIlks seen witch ilks

theorem mem_givenToWitch {ilks : List Address} :
    r ∈ givenToWitch seen cauldron witch bases fyTokens ilks ↔ r.account = witch ∧
    (r.host = cauldron ∧ r.role ∈ [selector.give, selector.slurp] ∨
    r.host ∈ bases ∧ r.role = selector.join ∨ r.host ∈ fyTokens ∧ r.role = selector.burn ∨
    r.host ∈ ilks ∧ r.role = selector.exit ∧ ¬held seen ⟨r.host, selector.exit, witch⟩) := by
  simp only [givenToWitch, givenForIlks, List.mem_append, List.mem_flatMap, mem_rolesOn,
    List.mem_singleton, List.mem_ite_nil_left]
  grind

theorem grants_registration (hi : List.Forall₂ (fun (ilk, join) p =>
      Fragments.addIlkToWitch sys seen.view ilk join = .ok p) ilks ips) :
    Grants (List.flatten
      ([orchestrateWitchToCauldron gov cauldron sys.witch] ++
      bases.map (fun join => .ofFragments (Fragments.addBaseToWitch sys join)) ++
      fyTokens.map (fun fyToken => .ofFragments (Fragments.addFYTokenToWitch sys fyToken)) ++
      ips.map .ofFragments))
      (givenToWitch seen cauldron sys.witch bases fyTokens (ilks.map (·.2))) := by
  simp only [List.flatten_append]
  refine ((Grants.append ?cauldron ?bases).append ?fyTokens).append (grants_ilks hi)
  case cauldron => exact grants_singleton rfl
  case bases    => exact grants_map fun _ => rfl
  case fyTokens => exact grants_map fun _ => rfl

-- To replace a Witch undoes all that it was given if it had none of what is taken, and if all
-- contracts are known for the ids in the lists.
theorem witch_undone_iff (hi : List.Forall₂ (fun (ilk, join) p =>
      Fragments.addIlkToWitch sys seen.view ilk join = .ok p) ilks ips)
    (h : hosts.run timelock (
      [orchestrateWitchToCauldron gov cauldron sys.witch] ++
      bases.map (fun join => .ofFragments (Fragments.addBaseToWitch sys join)) ++
      fyTokens.map (fun fyToken => .ofFragments (Fragments.addFYTokenToWitch sys fyToken)) ++
      ips.map .ofFragments ++
      [replaceWitch joins fyTokenOf sys.witch cauldron lines baseIds seriesIds]) = .ok hosts') :
    held hosts' = held hosts ↔
    (∀ r ∈ takenFromWitch cauldron sys.witch (baseIds.map joins) (seriesIds.map fyTokenOf)
      ((lines.map (·.ilkId)).eraseDups.map joins), ¬held hosts r) ∧
    (∀ join ∈ bases, join ∈ baseIds.map joins ∨ held hosts ⟨join, selector.join, sys.witch⟩) ∧
    (∀ fyToken ∈ fyTokens, fyToken ∈ seriesIds.map fyTokenOf ∨
      held hosts ⟨fyToken, selector.burn, sys.witch⟩) ∧
    ∀ join ∈ ilks.map (·.2), held seen ⟨join, selector.exit, sys.witch⟩ ∨
      join ∈ (lines.map (·.ilkId)).eraseDups.map joins ∨
      held hosts ⟨join, selector.exit, sys.witch⟩ := by
  rw [undone_iff (grants_registration hi) revokes_replaceWitch h]
  refine and_congr_right fun _ => ?_
  simp only [mem_givenToWitch, mem_takenFromWitch]
  have hd : [selector.give, selector.slurp, selector.join, selector.burn, selector.exit].Nodup := by
    decide
  constructor
  case mp =>
    intro hg
    refine ⟨fun join hj => ?bases, fun fyToken hf => ?fyTokens, fun join hj => ?ilks⟩
    case bases =>
      have h := hg ⟨join, selector.join, sys.witch⟩ ⟨rfl, .inr <| .inl ⟨hj, rfl⟩⟩
      grind
    case fyTokens =>
      have h := hg ⟨fyToken, selector.burn, sys.witch⟩ ⟨rfl, .inr <| .inr <| .inl ⟨hf, rfl⟩⟩
      grind
    case ilks =>
      refine or_iff_not_imp_left.mpr fun hs => ?_
      have h := hg ⟨join, selector.exit, sys.witch⟩ ⟨rfl, .inr <| .inr <| .inr ⟨hj, rfl, hs⟩⟩
      grind
  case mpr =>
    rintro ⟨hb, hf, hi⟩ ⟨host, role, account⟩ ⟨rfl, ⟨hc, hr⟩ | ⟨hm, rfl⟩ | ⟨hm, rfl⟩ | ⟨hm, rfl, hs⟩⟩
    · exact .inl ⟨rfl, .inl ⟨hc, hr⟩⟩
    · exact (hb _ hm).imp_left fun hm => ⟨rfl, .inr <| .inl ⟨hm, rfl⟩⟩
    · exact (hf _ hm).imp_left fun hm => ⟨rfl, .inr <| .inr <| .inl ⟨hm, rfl⟩⟩
    · exact ((hi _ hm).resolve_left hs).imp_left fun hm => ⟨rfl, .inr <| .inr <| .inr ⟨hm, rfl⟩⟩

namespace Registered

theorem ladle_ne : (1 : Address) ≠ 2 := by
  decide

theorem witch_ne : (1 : Address) ≠ 3 := by
  decide

def system : Fragments.System :=
  ⟨1, 2, 3, 4, ladle_ne, witch_ne⟩

def line : Governance.AuctionLineAndLimit :=
  ⟨9, 8, 3600, 0, 0, 0⟩

def collateral : Governance.Ilk :=
  ⟨9, 8, ⟨9, 8, 0, 0⟩, ⟨9, 8, 0, 0, 0⟩, some line⟩

def deployed : Hosts :=
  fun _ => .init 1

-- Join 6 is the one for all ids, and fyToken 7 for all series.
def proposals : List Proposal :=
  [orchestrateWitchToCauldron ⟨1, 4⟩ 5 3] ++
  [6].map (fun join => .ofFragments (Fragments.addBaseToWitch system join)) ++
  [7].map (fun fyToken => .ofFragments (Fragments.addFYTokenToWitch system fyToken)) ++
  [Fragments.setLineAndLimit system line ++
    [⟨6, .grantRole selector.exit 3⟩, ⟨4, .add 3 [⟨6, selector.exit⟩]⟩]].map .ofFragments ++
  [replaceWitch (fun _ => 6) (fun _ => 7) 3 5 [line] [8] [0]]

theorem not_held (h : r.account = 3) : ¬held deployed r := by
  simp only [held, deployed, AccessControl.init, AccessControl.hasRole_setRoleAdmin,
    AccessControl.hasRole_grantRole, h]
  rintro (⟨-, h⟩ | h)
  · revert h; decide
  · cases h

end Registered

theorem witch_undone_registered : ∃ hosts', Registered.deployed.run 1 Registered.proposals =
    .ok hosts' ∧ held hosts' = held Registered.deployed := by
  have hi : List.Forall₂ (fun (ilk, join) p => Fragments.addIlkToWitch Registered.system
      Registered.deployed.view ilk join = .ok p) [(Registered.collateral, 6)] _ :=
    .cons rfl .nil
  have h : Registered.deployed.run 1 Registered.proposals = .ok _ := rfl
  refine ⟨_, h, (witch_undone_iff hi h).mpr ⟨fun r hr => ?taken, ?bases, ?fyTokens, ?ilks⟩⟩
  case taken    => exact Registered.not_held <| (mem_takenFromWitch.mp hr).left
  case bases    => rintro _ (_ | ⟨_, ⟨⟩⟩); exact .inl <| .head _
  case fyTokens => rintro _ (_ | ⟨_, ⟨⟩⟩); exact .inl <| .head _
  case ilks     => rintro _ (_ | ⟨_, ⟨⟩⟩); exact .inr <| .inl <| .head _

end Permissions
