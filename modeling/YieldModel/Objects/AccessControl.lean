import YieldModel.Objects.Basic

structure RoleData where
  members   : Address → Bool
  adminRole : Bytes4

structure AccessControl where
  roles : Bytes4 → RoleData

namespace AccessControl

def ROOT : Bytes4 := 0x00000000
def LOCK : Bytes4 := 0xFFFFFFFF

def hasRole (c : AccessControl) (role : Bytes4) (account : Address) : Bool :=
  (c.roles role).members account

def getRoleAdmin (c : AccessControl) (role : Bytes4) : Bytes4 :=
  (c.roles role).adminRole

def _setRoleAdmin (c : AccessControl) (role adminRole : Bytes4) : AccessControl where
  roles := Function.update c.roles role { c.roles role with adminRole }

def _setMember (c : AccessControl) (role : Bytes4) (account : Address) (b : Bool) :
    AccessControl where
  roles := Function.update c.roles role
    { c.roles role with members := Function.update (c.roles role).members account b }

def _grantRole (c : AccessControl) (role : Bytes4) (account : Address) : AccessControl :=
  if c.hasRole role account then c else c._setMember role account true

def _revokeRole (c : AccessControl) (role : Bytes4) (account : Address) : AccessControl :=
  if c.hasRole role account then c._setMember role account false else c

-- The state after construction by `sender`.
def init (sender : Address) : AccessControl :=
  let c : AccessControl := ⟨fun _ => ⟨fun _ => false, ROOT⟩⟩
  (c._grantRole ROOT sender)._setRoleAdmin LOCK LOCK

def auth (c : AccessControl) (sig : Bytes4) (sender : Address) : Call Unit :=
  Call.require (c.hasRole sig sender) "Access denied"

def admin (c : AccessControl) (role : Bytes4) (sender : Address) : Call Unit :=
  Call.require (c.hasRole (c.getRoleAdmin role) sender) "Only admin"

def setRoleAdmin (c : AccessControl) (sender : Address) (role adminRole : Bytes4) :
    Call AccessControl := do
  c.admin role sender
  return c._setRoleAdmin role adminRole

def lockRole (c : AccessControl) (sender : Address) (role : Bytes4) : Call AccessControl := do
  c.admin role sender
  return c._setRoleAdmin role LOCK

def grantRole (c : AccessControl) (sender : Address) (role : Bytes4) (account : Address) :
    Call AccessControl := do
  c.admin role sender
  return c._grantRole role account

def revokeRole (c : AccessControl) (sender : Address) (role : Bytes4) (account : Address) :
    Call AccessControl := do
  c.admin role sender
  return c._revokeRole role account

-- The admin of each role is checked when its turn in the list comes.
def grantRoles (sender : Address) (roles : List Bytes4) (account : Address) (c : AccessControl) :
    Call AccessControl :=
  roles.foldlM (fun c role => c.grantRole sender role account) c

def revokeRoles (sender : Address) (roles : List Bytes4) (account : Address) (c : AccessControl) :
    Call AccessControl :=
  roles.foldlM (fun c role => c.revokeRole sender role account) c

def renounceRole (c : AccessControl) (sender : Address) (role : Bytes4) (account : Address) :
    Call AccessControl := do
  Call.require (account = sender) "Renounce only for self"
  return c._revokeRole role account

inductive Action
  | setRoleAdmin (role adminRole : Bytes4)
  | grantRole (role : Bytes4) (account : Address)
  | grantRoles (roles : List Bytes4) (account : Address)
  | lockRole (role : Bytes4)
  | revokeRole (role : Bytes4) (account : Address)
  | revokeRoles (roles : List Bytes4) (account : Address)
  | renounceRole (role : Bytes4) (account : Address)

def exec (c : AccessControl) (sender : Address) : Action → Call AccessControl
  | .setRoleAdmin role adminRole => c.setRoleAdmin sender role adminRole
  | .grantRole role account      => c.grantRole sender role account
  | .grantRoles roles account    => grantRoles sender roles account c
  | .lockRole role               => c.lockRole sender role
  | .revokeRole role account     => c.revokeRole sender role account
  | .revokeRoles roles account   => revokeRoles sender roles account c
  | .renounceRole role account   => c.renounceRole sender role account

variable {c c' : AccessControl} {role r : Bytes4} {sender account a : Address}

theorem hasRole_setMember {b : Bool} :
    (c._setMember role account b).hasRole r a =
    if r = role ∧ a = account then b else c.hasRole r a := by
  by_cases hr : r = role <;> by_cases ha : a = account <;> simp [_setMember, hasRole, hr, ha]

@[simp]
theorem hasRole_grantRole :
    (c._grantRole role account).hasRole r a ↔ (r = role ∧ a = account) ∨ c.hasRole r a := by
  unfold _grantRole
  split
  case isTrue h  => exact ⟨.inr, by rintro (⟨rfl, rfl⟩ | h') <;> assumption⟩
  case isFalse h => simp only [hasRole_setMember]; split <;> simp_all

@[simp]
theorem hasRole_revokeRole :
    (c._revokeRole role account).hasRole r a ↔ ¬(r = role ∧ a = account) ∧ c.hasRole r a := by
  unfold _revokeRole
  split
  case isTrue h  => simp only [hasRole_setMember]; split <;> simp_all
  case isFalse h => exact ⟨fun h' => ⟨by rintro ⟨rfl, rfl⟩; exact h h', h'⟩, And.right⟩

@[simp]
theorem hasRole_setRoleAdmin {adminRole : Bytes4} :
    (c._setRoleAdmin role adminRole).hasRole r a = c.hasRole r a := by
  by_cases hr : r = role <;> simp [_setRoleAdmin, hasRole, hr]

@[simp]
theorem getRoleAdmin_setMember {b : Bool} :
    (c._setMember role account b).getRoleAdmin r = c.getRoleAdmin r := by
  by_cases hr : r = role <;> simp [_setMember, getRoleAdmin, hr]

@[simp]
theorem getRoleAdmin_grantRole : (c._grantRole role account).getRoleAdmin r = c.getRoleAdmin r := by
  unfold _grantRole
  split
  case isTrue  => rfl
  case isFalse => exact getRoleAdmin_setMember

@[simp]
theorem getRoleAdmin_revokeRole : (c._revokeRole role account).getRoleAdmin r = c.getRoleAdmin r := by
  unfold _revokeRole
  split
  case isTrue  => exact getRoleAdmin_setMember
  case isFalse => rfl

-- The roles consist of who holds them, and of their admins.
theorem ext_roles (hr : ∀ r a, c.hasRole r a = c'.hasRole r a)
    (ha : ∀ r, c.getRoleAdmin r = c'.getRoleAdmin r) : c = c' := by
  cases c with | mk f =>
  cases c' with | mk g =>
  refine congrArg _ (funext fun r => ?_)
  have hm : (f r).members = (g r).members := funext (hr r)
  have ha : (f r).adminRole = (g r).adminRole := ha r
  generalize f r = x at hm ha
  generalize g r = y at hm ha
  cases x
  cases y
  cases hm
  cases ha
  rfl

theorem grantRole_eq_ok : c.grantRole sender role account = .ok c' ↔
    c.hasRole (c.getRoleAdmin role) sender ∧ c' = c._grantRole role account := by
  simp [grantRole, admin, Call.map_eq_ok, Call.require_eq_ok, @eq_comm _ _ c']

theorem revokeRole_eq_ok : c.revokeRole sender role account = .ok c' ↔
    c.hasRole (c.getRoleAdmin role) sender ∧ c' = c._revokeRole role account := by
  simp [revokeRole, admin, Call.map_eq_ok, Call.require_eq_ok, @eq_comm _ _ c']

theorem hasRole_grantRoles {roles : List Bytes4} (h : grantRoles sender roles account c = .ok c') :
    c'.hasRole r a ↔ (r ∈ roles ∧ a = account) ∨ c.hasRole r a := by
  induction roles generalizing c
  case nil => cases h; simp
  case cons role roles hi =>
    simp only [grantRoles, List.foldlM_cons, Call.bind_eq_ok, grantRole_eq_ok] at h
    obtain ⟨_, ⟨-, rfl⟩, h⟩ := h
    rw [hi h, hasRole_grantRole, List.mem_cons]
    tauto

theorem hasRole_revokeRoles {roles : List Bytes4} (h : revokeRoles sender roles account c = .ok c') :
    c'.hasRole r a ↔ ¬(r ∈ roles ∧ a = account) ∧ c.hasRole r a := by
  induction roles generalizing c
  case nil => cases h; simp
  case cons role roles hi =>
    simp only [revokeRoles, List.foldlM_cons, Call.bind_eq_ok, revokeRole_eq_ok] at h
    obtain ⟨_, ⟨-, rfl⟩, h⟩ := h
    rw [hi h, hasRole_revokeRole, List.mem_cons]
    tauto

end AccessControl
