import YieldModel.Lib.Execution
import YieldModel.Objects.AccessControl

open Execution

-- How the members of roles grow, and how roles are locked.

namespace AccessControl

variable {c c' m : AccessControl} {role r adminRole : Bytes4} {sender deployer account a : Address}
variable {roles : List Bytes4}

theorem getRoleAdmin_setRoleAdmin :
    (c._setRoleAdmin role adminRole).getRoleAdmin r =
    if r = role then adminRole else c.getRoleAdmin r := by
  by_cases hr : r = role <;> simp [_setRoleAdmin, getRoleAdmin, hr]

theorem setRoleAdmin_eq_ok : c.setRoleAdmin sender role adminRole = .ok c' ↔
    c.hasRole (c.getRoleAdmin role) sender ∧ c' = c._setRoleAdmin role adminRole := by
  simp [setRoleAdmin, admin, Call.map_eq_ok, Call.require_eq_ok, @eq_comm _ _ c']

theorem renounceRole_eq_ok : c.renounceRole sender role account = .ok c' ↔
    account = sender ∧ c' = c._revokeRole role account := by
  simp [renounceRole, Call.map_eq_ok, Call.require_eq_ok, @eq_comm _ _ c']

-- The turns of which a call is made up. A batch takes one for each of its roles.
inductive Turn (sender : Address) : AccessControl → AccessControl → Prop
  | grant {c : AccessControl} {role : Bytes4} {account : Address} :
    c.hasRole (c.getRoleAdmin role) sender → Turn sender c (c._grantRole role account)
  | revoke {c : AccessControl} {role : Bytes4} {account : Address} :
    Turn sender c (c._revokeRole role account)
  | setRoleAdmin {c : AccessControl} {role adminRole : Bytes4} :
    c.hasRole (c.getRoleAdmin role) sender → Turn sender c (c._setRoleAdmin role adminRole)

theorem grantRoles_turns (h : grantRoles sender roles account c = .ok c') :
    Steps (Turn sender) c c' := by
  induction roles generalizing c
  case nil => cases h; exact .refl
  case cons role roles hi =>
    simp only [grantRoles, List.foldlM_cons, Call.bind_eq_ok, grantRole_eq_ok] at h
    obtain ⟨_, ⟨ha, rfl⟩, h⟩ := h
    exact .head (.grant ha) (hi h)

theorem revokeRoles_turns (h : revokeRoles sender roles account c = .ok c') :
    Steps (Turn sender) c c' := by
  induction roles generalizing c
  case nil => cases h; exact .refl
  case cons role roles hi =>
    simp only [revokeRoles, List.foldlM_cons, Call.bind_eq_ok, revokeRole_eq_ok] at h
    obtain ⟨_, ⟨-, rfl⟩, h⟩ := h
    exact .head .revoke (hi h)

theorem exec_turns {action : Action} (h : c.exec sender action = .ok c') :
    Steps (Turn sender) c c' := by
  cases action
  case setRoleAdmin =>
    obtain ⟨ha, rfl⟩ := setRoleAdmin_eq_ok.mp h
    exact .single (.setRoleAdmin ha)
  case lockRole =>
    obtain ⟨ha, rfl⟩ := setRoleAdmin_eq_ok.mp h
    exact .single (.setRoleAdmin ha)
  case grantRole =>
    obtain ⟨ha, rfl⟩ := grantRole_eq_ok.mp h
    exact .single (.grant ha)
  case revokeRole =>
    obtain ⟨-, rfl⟩ := revokeRole_eq_ok.mp h
    exact .single .revoke
  case renounceRole =>
    obtain ⟨-, rfl⟩ := renounceRole_eq_ok.mp h
    exact .single .revoke
  case grantRoles  => exact grantRoles_turns h
  case revokeRoles => exact revokeRoles_turns h

-- Nobody has the role which is the admin of locked roles, and nobody can be granted it.
structure Sealed (c : AccessControl) : Prop where
  members : ∀ a, ¬c.hasRole LOCK a
  admin   : c.getRoleAdmin LOCK = LOCK

theorem Sealed.not_admin (h : c.Sealed) (hr : c.getRoleAdmin role = LOCK) :
    ¬c.hasRole (c.getRoleAdmin role) sender :=
  hr ▸ h.members sender

theorem init_sealed : (init deployer).Sealed where
  members a := by
    have hl : LOCK ≠ ROOT := by decide
    simp [init, hl]
    simp [hasRole]
  admin := by simp [init, getRoleAdmin_setRoleAdmin]

theorem Turn.sealed (t : Turn sender c c') (h : c.Sealed) : c'.Sealed := by
  cases t
  case grant role account ha =>
    refine ⟨fun a => ?_, getRoleAdmin_grantRole.trans h.admin⟩
    rw [hasRole_grantRole]
    rintro (⟨hl, -⟩ | hm)
    · exact h.not_admin (hl ▸ h.admin) ha
    · exact h.members a hm
  case revoke =>
    refine ⟨fun a => ?_, getRoleAdmin_revokeRole.trans h.admin⟩
    rw [hasRole_revokeRole]
    exact fun hm => h.members a hm.right
  case setRoleAdmin role _ ha =>
    refine ⟨fun a => by simpa using h.members a, ?_⟩
    rw [getRoleAdmin_setRoleAdmin, if_neg, h.admin]
    exact fun hl => h.not_admin (hl ▸ h.admin) ha

-- What a locked role keeps: its admin, and having no members but `members`.
structure Locked (role : Bytes4) (members : Address → Prop) (c : AccessControl) : Prop where
  admin   : c.getRoleAdmin role = LOCK
  members : ∀ a, c.hasRole role a → members a

theorem Turn.locked {members : Address → Prop} (t : Turn sender c c') (hs : c.Sealed)
    (h : Locked role members c) : Locked role members c' := by
  cases t
  case grant r account ha =>
    refine ⟨getRoleAdmin_grantRole.trans h.admin, fun a hm => ?_⟩
    rw [hasRole_grantRole] at hm
    rcases hm with ⟨hr, -⟩ | hm
    · exact absurd ha (hs.not_admin (hr ▸ h.admin))
    · exact h.members a hm
  case revoke =>
    refine ⟨getRoleAdmin_revokeRole.trans h.admin, fun a hm => h.members a ?_⟩
    rw [hasRole_revokeRole] at hm
    exact hm.right
  case setRoleAdmin r _ ha =>
    refine ⟨?_, fun a hm => h.members a (by simpa using hm)⟩
    rw [getRoleAdmin_setRoleAdmin, if_neg, h.admin]
    exact fun hr => hs.not_admin (hr ▸ h.admin) ha

-- The calls which give `account` a role that it does not have, while the caller holds its admin.
inductive Grants (c : AccessControl) (sender : Address) (role : Bytes4) (account : Address) :
    Action → Prop
  | grantRole : c.hasRole (c.getRoleAdmin role) sender →
    Grants c sender role account (.grantRole role account)
  | grantRoles (before after : List Bytes4) {turn : AccessControl} :
    grantRoles sender before account c = .ok turn → ¬turn.hasRole role account →
    turn.hasRole (turn.getRoleAdmin role) sender →
    Grants c sender role account (.grantRoles (before ++ role :: after) account)

-- A batch has a first turn at which a new member is added.
theorem grantRoles_grants (h : grantRoles sender roles account c = .ok c') (hn : c'.hasRole r a)
    (ho : ¬c.hasRole r a) : Grants c sender r a (.grantRoles roles account) := by
  induction roles generalizing c
  case nil => cases h; exact absurd hn ho
  case cons role roles hi =>
    simp only [grantRoles, List.foldlM_cons, Call.bind_eq_ok] at h
    obtain ⟨m, hg, h⟩ := h
    obtain ⟨ha, hm⟩ := grantRole_eq_ok.mp hg
    by_cases hmr : m.hasRole r a
    case pos =>
      rw [hm, hasRole_grantRole] at hmr
      obtain ⟨rfl, rfl⟩ := hmr.resolve_right ho
      exact .grantRoles [] roles rfl ho ha
    case neg =>
      cases hi h hmr with | grantRoles before after hb hl hr =>
      refine .grantRoles (role :: before) after ?_ hl hr
      simp only [AccessControl.grantRoles, List.foldlM_cons, Call.bind_eq_ok]
      exact ⟨m, hg, hb⟩

theorem exec_grants {action : Action} (h : c.exec sender action = .ok c') (hn : c'.hasRole r a)
    (ho : ¬c.hasRole r a) : Grants c sender r a action := by
  cases action
  case grantRole =>
    obtain ⟨ha, rfl⟩ := grantRole_eq_ok.mp h
    obtain ⟨rfl, rfl⟩ := (hasRole_grantRole.mp hn).resolve_right ho
    exact .grantRole ha
  case grantRoles => exact grantRoles_grants h hn ho
  case setRoleAdmin =>
    obtain ⟨-, rfl⟩ := setRoleAdmin_eq_ok.mp h
    exact absurd (hasRole_setRoleAdmin ▸ hn) ho
  case lockRole =>
    obtain ⟨-, rfl⟩ := setRoleAdmin_eq_ok.mp h
    exact absurd (hasRole_setRoleAdmin ▸ hn) ho
  case revokeRole =>
    obtain ⟨-, rfl⟩ := revokeRole_eq_ok.mp h
    exact absurd (hasRole_revokeRole.mp hn).right ho
  case renounceRole =>
    obtain ⟨-, rfl⟩ := renounceRole_eq_ok.mp h
    exact absurd (hasRole_revokeRole.mp hn).right ho
  case revokeRoles => exact absurd ((hasRole_revokeRoles h).mp hn).right ho

-- The calls of anybody.
def Step (c c' : AccessControl) : Prop :=
  ∃ sender action, c.exec sender action = .ok c'

theorem Turn.preserves_sealed : Preserves (Turn sender) Sealed :=
  fun _ _ t h => t.sealed h

theorem Step.preserves_sealed : Preserves Step Sealed :=
  fun _ _ ⟨_, _, h⟩ hs => Turn.preserves_sealed.steps (exec_turns h) hs

theorem Step.preserves_locked {members : Address → Prop} :
    Preserves Step fun c => c.Sealed ∧ Locked role members c := by
  intro c c' ⟨sender, action, h⟩ hc
  have hp : Preserves (Turn sender) fun c => c.Sealed ∧ Locked role members c :=
    fun _ _ t ht => ⟨t.sealed ht.left, t.locked ht.left ht.right⟩
  exact hp.steps (exec_turns h) hc

theorem members_grow_and_lock (e : Steps Step (init deployer) c) :
    (∀ sender action c', c.exec sender action = .ok c' → ∀ role account,
      c'.hasRole role account → ¬c.hasRole role account → Grants c sender role account action) ∧
    (∀ account, ¬c.hasRole LOCK account) ∧
    (∀ role, c.getRoleAdmin role = LOCK → ∀ c', Steps Step c c' →
      c'.getRoleAdmin role = LOCK ∧ ∀ account, c'.hasRole role account → c.hasRole role account) := by
  have hs := Step.preserves_sealed.steps e init_sealed
  refine ⟨fun _ _ _ h _ _ hn ho => exec_grants h hn ho, hs.members, fun role hr c' e' => ?_⟩
  have hl : Locked role (c.hasRole role ·) c := ⟨hr, fun _ h => h⟩
  have ⟨_, hl⟩ := Step.preserves_locked.steps e' ⟨hs, hl⟩
  exact ⟨hl.admin, hl.members⟩

-- The deployer locks a role which nobody has.
theorem members_grow_and_lock_unused : ∃ c, (init 7).exec 7 (.lockRole 5) = .ok c ∧
    ∀ c', Steps Step c c' → c'.getRoleAdmin 5 = LOCK ∧ ∀ account, ¬c'.hasRole 5 account := by
  have h : (init 7).exec 7 (.lockRole 5) = .ok ((init 7)._setRoleAdmin 5 LOCK) :=
    setRoleAdmin_eq_ok.mpr ⟨by decide, rfl⟩
  refine ⟨_, h, fun c' e => ?_⟩
  have ⟨_, _, hl⟩ := members_grow_and_lock (.single ⟨7, _, h⟩)
  have ⟨ha, hm⟩ := hl 5 (by decide) c' e
  refine ⟨ha, fun account hc => ?_⟩
  have hr : (5 : Bytes4) ≠ ROOT := by decide
  have := hm account hc
  simp [init, hr] at this
  simp [hasRole] at this

end AccessControl
