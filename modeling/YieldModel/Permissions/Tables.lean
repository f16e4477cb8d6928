import YieldModel.Permissions.Basic

open AccessControl (ROOT)

namespace Permissions

variable {timelock : Address} {hosts hosts' : Hosts} {host : Address} {tx : Tx} {p q : Proposal}
  {w : Role × Bool} {l : List (Role × Bool)} {r : Role}

-- One role which changes hands. Every call on roles is a sequence of these.
def write (timelock : Address) (hosts : Hosts) (w : Role × Bool) : Call Hosts :=
  hosts.on w.1.host fun c =>
    if w.2 then c.grantRole timelock w.1.role w.1.account
    else c.revokeRole timelock w.1.role w.1.account

-- What a role which changes hands does. The admin of the role has to hold before.
structure Writes (timelock : Address) (hosts : Hosts) (w : Role × Bool) (hosts' : Hosts) : Prop where
  admin  : (hosts w.1.host).hasRole ((hosts w.1.host).getRoleAdmin w.1.role) timelock
  held   : held hosts' = Function.update (held hosts) w.1 w.2
  admins : ∀ host role, (hosts' host).getRoleAdmin role = (hosts host).getRoleAdmin role

theorem Hosts.on_update {f : AccessControl → Call AccessControl} {c : AccessControl} :
    Hosts.on (Function.update hosts host c) host f =
    f c >>= fun c => return Function.update hosts host c := by
  simp [Hosts.on]

theorem Hosts.on_foldlM {α : Type} {f : AccessControl → α → Call AccessControl} {as : List α} :
    hosts.on host (as.foldlM f ·) = as.foldlM (fun hosts a => Hosts.on hosts host (f · a)) hosts := by
  induction as generalizing hosts
  case nil => simp [Hosts.on]
  case cons a as hi =>
    calc
      _ = f (hosts host) a >>= fun c =>
          Hosts.on (Function.update hosts host c) host (as.foldlM f ·) := by
        simp [Hosts.on]
      _ = _ := by
        simp only [hi]
        simp [Hosts.on]

theorem onHosts_eq : tx.onHosts timelock hosts = tx.writes.foldlM (write timelock) hosts := by
  obtain ⟨target, data⟩ := tx
  cases data
  case grantRoles roles account =>
    refine Hosts.on_foldlM.trans ?_
    simp [Tx.writes, write, List.foldlM_map]
  case revokeRoles roles account =>
    refine Hosts.on_foldlM.trans ?_
    simp [Tx.writes, write, List.foldlM_map]
  all_goals simp [Tx.onHosts, Tx.writes, write]

theorem Proposal.onHosts_eq :
    Proposal.onHosts timelock hosts p = p.writes.foldlM (write timelock) hosts := by
  induction p generalizing hosts
  case nil => rfl
  case cons tx p hi =>
    simp only [Proposal.onHosts, Proposal.writes, List.flatMap_cons, List.foldlM_cons,
      List.foldlM_append, Permissions.onHosts_eq]
    exact congrArg _ (funext fun _ => hi)

theorem write_spec (h : write timelock hosts w = .ok hosts') : Writes timelock hosts w hosts' := by
  obtain ⟨⟨host, role, account⟩, b⟩ := w
  obtain ⟨c, hc, h⟩ := Call.bind_eq_ok.mp h
  cases h
  have hr : (hosts host).hasRole ((hosts host).getRoleAdmin role) timelock ∧
      c = if b then (hosts host)._grantRole role account
        else (hosts host)._revokeRole role account := by
    cases b
    case false => exact AccessControl.revokeRole_eq_ok.mp hc
    case true  => exact AccessControl.grantRole_eq_ok.mp hc
  obtain ⟨ha, rfl⟩ := hr
  refine ⟨ha, funext fun ⟨h, r, a⟩ => ?held, fun h r => ?admins⟩
  case held =>
    by_cases hh : h = host
    case neg => simp [held, hh]
    case pos =>
      cases hh
      rw [Bool.eq_iff_iff]
      cases b <;> by_cases hk : r = role ∧ a = account <;> simp [held, Function.update, hk]
  case admins =>
    by_cases hh : h = host
    case neg => simp [hh]
    case pos => cases hh; cases b <;> simp

theorem exists_write
    (h : (hosts w.1.host).hasRole ((hosts w.1.host).getRoleAdmin w.1.role) timelock) :
    ∃ hosts', write timelock hosts w = .ok hosts' := by
  obtain ⟨⟨host, role, account⟩, b⟩ := w
  cases b <;> simp_all [write, Hosts.on, AccessControl.grantRole, AccessControl.revokeRole,
    AccessControl.admin, Call.require]

-- What a sequence of writes leaves. Of all writes to a role only the last one counts.
structure Leaves (hosts : Hosts) (l : List (Role × Bool)) (hosts' : Hosts) : Prop where
  held   : held hosts' = Overwrite.apply (held hosts) l
  admins : ∀ host role, (hosts' host).getRoleAdmin role = (hosts host).getRoleAdmin role

theorem leaves_of_foldlM (h : l.foldlM (write timelock) hosts = .ok hosts') :
    Leaves hosts l hosts' := by
  induction l generalizing hosts
  case nil => cases h; exact ⟨rfl, fun _ _ => rfl⟩
  case cons w l hi =>
    simp only [List.foldlM_cons, Call.bind_eq_ok] at h
    obtain ⟨hosts₁, hw, hl⟩ := h
    have hw := write_spec hw
    have hl := hi hl
    refine ⟨?_, fun h r => (hl.admins h r).trans <| hw.admins h r⟩
    rw [hl.held, hw.held, Overwrite.apply_cons]

theorem leaves (h : Proposal.onHosts timelock hosts p = .ok hosts') : Leaves hosts p.writes hosts' := by
  rw [Proposal.onHosts_eq] at h
  exact leaves_of_foldlM h

-- The hosts after a proposal, with all else that it does.
theorem onHosts_of_execute {κ : Type} {b : Fragments.EmergencyBrake κ} {others : Tx → Call Unit}
    {c c' : Chain κ} (h : Proposal.execute b others timelock c p = .ok c') :
    Proposal.onHosts timelock c.hosts p = .ok c'.hosts := by
  induction p generalizing c
  case nil => cases h; rfl
  case cons tx p hi =>
    simp only [Proposal.execute, Proposal.onHosts, List.foldlM_cons, Call.bind_eq_ok] at h ⊢
    obtain ⟨c₁, ht, hp⟩ := h
    refine ⟨c₁.hosts, ?_, hi hp⟩
    unfold Tx.execute at ht
    split at ht <;> simp only [Call.bind_eq_ok] at ht
    case h_1 => obtain ⟨_, -, _, hh, _, -, h⟩ := ht; cases h; exact hh
    case h_2 => obtain ⟨_, hh, _, -, h⟩ := ht; cases h; exact hh

@[simp]
theorem writes_append : Proposal.writes (p ++ q) = Proposal.writes p ++ Proposal.writes q :=
  List.flatMap_append

@[simp]
theorem writes_cons : Proposal.writes (tx :: p) = tx.writes ++ Proposal.writes p :=
  rfl

@[simp]
theorem writes_nil : Proposal.writes [] = [] :=
  rfl

end Permissions
