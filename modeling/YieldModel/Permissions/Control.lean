import YieldModel.Objects.Locking
import YieldModel.Permissions.Tables

open AccessControl (ROOT LOCK)

namespace Permissions

variable {timelock : Address} {S : Set Address} {hosts hosts' : Hosts} {host : Address}
  {w : Role × Bool} {l l₁ l₂ : List (Role × Bool)}

-- The timelock is an admin of all roles which are not locked. This is how access control is
-- constructed, with ROOT for the timelock.
structure Governed (timelock : Address) (S : Set Address) (hosts : Hosts) : Prop where
  root   : ∀ host ∈ S, held hosts ⟨host, ROOT, timelock⟩
  locked : ∀ host ∈ S, ¬held hosts ⟨host, LOCK, timelock⟩
  admins : ∀ host ∈ S, ∀ role, (hosts host).getRoleAdmin role = if role = LOCK then LOCK else ROOT

-- It holds of hosts which the timelock has constructed.
theorem governed_init : Governed timelock S fun _ => .init timelock := by
  refine ⟨fun _ _ => ?root, fun _ _ => AccessControl.init_sealed.members _, fun _ _ role => ?admins⟩
  case root   => simp [held, AccessControl.init]
  case admins =>
    rw [AccessControl.init, AccessControl.getRoleAdmin_setRoleAdmin,
      AccessControl.getRoleAdmin_grantRole]
    rfl

-- A write which does not take away the control of the timelock.
def Harmless (timelock : Address) (w : Role × Bool) : Prop :=
  w.1.role ≠ LOCK ∧ (w.1.role = ROOT → w.1.account = timelock → w.2 = true)

theorem Governed.exists_write (h : Governed timelock S hosts) (hs : w.1.host ∈ S)
    (hw : Harmless timelock w) :
    ∃ hosts', write timelock hosts w = .ok hosts' ∧ Governed timelock S hosts' := by
  have ha := (h.admins _ hs w.1.role).trans (if_neg hw.left)
  obtain ⟨hosts', e⟩ := Permissions.exists_write (ha ▸ h.root _ hs)
  have hw' := write_spec e
  refine ⟨hosts', e, fun host hh => ?root, fun host hh => ?locked, fun host hh role => ?admins⟩
  case root =>
    rw [hw'.held, Function.update_apply]
    split
    case isTrue hk  => exact hw.right (congrArg Role.role hk).symm (congrArg Role.account hk).symm
    case isFalse => exact h.root _ hh
  case locked =>
    rw [hw'.held, Function.update_of_ne fun hk => hw.left (congrArg Role.role hk).symm]
    exact h.locked _ hh
  case admins => rw [hw'.admins, h.admins _ hh]

-- A host on which the timelock can change nothing.
structure Lost (timelock host : Address) (hosts : Hosts) : Prop where
  root   : ¬held hosts ⟨host, ROOT, timelock⟩
  locked : ¬held hosts ⟨host, LOCK, timelock⟩
  admins : ∀ role, (hosts host).getRoleAdmin role = if role = LOCK then LOCK else ROOT

theorem Lost.host_ne (h : Lost timelock host hosts) (e : write timelock hosts w = .ok hosts') :
    host ≠ w.1.host := by
  rintro rfl
  have ha := (write_spec e).admin
  rw [h.admins] at ha
  split at ha
  case isTrue  => exact h.locked ha
  case isFalse => exact h.root ha

-- There is no way back for the timelock.
theorem Lost.foldlM_write (h : Lost timelock host hosts)
    (e : l.foldlM (write timelock) hosts = .ok hosts') : Lost timelock host hosts' := by
  induction l generalizing hosts
  case nil => cases e; exact h
  case cons w l hi =>
    simp only [List.foldlM_cons, Call.bind_eq_ok] at e
    obtain ⟨hosts₁, hw, hl⟩ := e
    have hh := h.host_ne hw
    have hw := write_spec hw
    refine hi ⟨?root, ?locked, fun role => (hw.admins _ _).trans (h.admins role)⟩ hl
    case root =>
      rw [hw.held, Function.update_of_ne fun hk => hh (congrArg Role.host hk)]
      exact h.root
    case locked =>
      rw [hw.held, Function.update_of_ne fun hk => hh (congrArg Role.host hk)]
      exact h.locked

-- A write which takes away the control of the timelock fails, or the host is lost.
theorem Governed.lost_of_not_harmless (h : Governed timelock S hosts) (hs : w.1.host ∈ S)
    (hw : ¬Harmless timelock w) (e : write timelock hosts w = .ok hosts') :
    Lost timelock w.1.host hosts' := by
  have e := write_spec e
  have hr : w.1.role ≠ LOCK := by
    intro hr
    refine h.locked _ hs ?_
    have ha := e.admin
    rwa [h.admins _ hs, if_pos hr] at ha
  have hk : w = (⟨w.1.host, ROOT, timelock⟩, false) := by
    obtain ⟨⟨host, role, account⟩, b⟩ := w
    simp only [Harmless, not_and, Classical.not_imp, Bool.not_eq_true] at hw hr
    obtain ⟨rfl, rfl, rfl⟩ := hw hr
    rfl
  refine ⟨?root, ?locked, fun role => (e.admins _ _).trans (h.admins _ hs role)⟩
  case root =>
    rw [e.held, hk, Function.update_self]
    exact Bool.false_ne_true
  case locked =>
    rw [e.held, Function.update_of_ne fun hk => hr (congrArg Role.role hk).symm]
    exact h.locked _ hs

theorem Governed.foldlM_write_iff (h : Governed timelock S hosts) (hs : ∀ w ∈ l, w.1.host ∈ S) :
    (∃ hosts', l.foldlM (write timelock) hosts = .ok hosts' ∧ Governed timelock S hosts') ↔
    ∀ w ∈ l, Harmless timelock w := by
  induction l generalizing hosts
  case nil => exact ⟨fun _ => by simp, fun _ => ⟨hosts, rfl, h⟩⟩
  case cons w l hi =>
    obtain ⟨hsw, hsl⟩ := List.forall_mem_cons.mp hs
    simp only [List.foldlM_cons, Call.bind_eq_ok, List.forall_mem_cons]
    constructor
    case mp =>
      rintro ⟨hosts', ⟨hosts₁, ew, el⟩, h'⟩
      have hw : Harmless timelock w := by
        by_contra hw
        exact ((h.lost_of_not_harmless hsw hw ew).foldlM_write el).root (h'.root _ hsw)
      obtain ⟨hosts₂, ew₂, h₂⟩ := h.exists_write hsw hw
      cases ew.symm.trans ew₂
      exact ⟨hw, (hi h₂ hsl).mp ⟨hosts', el, h'⟩⟩
    case mpr =>
      rintro ⟨hw, hl⟩
      obtain ⟨hosts₁, ew, h₁⟩ := h.exists_write hsw hw
      obtain ⟨hosts', el, h'⟩ := (hi h₁ hsl).mpr hl
      exact ⟨hosts', ⟨hosts₁, ew, el⟩, h'⟩

end Permissions
