import YieldModel.Brake.Basic
import YieldModel.Lib.Custody

open Execution

structure Role where
  contact   : Address
  signature : Bytes4
  account   : Address
  deriving DecidableEq

namespace OldEmergencyBrake

variable {Bytes : Type} {abi : Abi Bytes} {this sender target : Address} {s s' : State Bytes}
variable {contacts contacts' : Address → AccessControl} {txHash : Bytes32}

-- The roles which are granted by some contacts.
def granted (contacts : Address → AccessControl) : Set Role :=
  { r | (contacts r.contact).hasRole r.signature r.account }

-- The roles which a plan is about.
def roles (target : Address) (permissions : List Permission) : List Role :=
  permissions.flatMap fun p => p.signatures.map fun signature => ⟨p.contact, signature, target⟩

def Plan.listed (abi : Abi Bytes) (p : Plan Bytes) : Set Role :=
  { r | ∃ permissions, abi.decode p.permissions = .ok permissions ∧
    r ∈ roles p.target permissions }

theorem mem_granted_update {c : AccessControl} {contact : Address} {r : Role} :
    r ∈ granted (Function.update contacts contact c) ↔
    if r.contact = contact then c.hasRole r.signature r.account = true
    else r ∈ granted contacts := by
  simp only [granted, Set.mem_ofPred_eq, Function.update_apply]
  split <;> rfl

theorem revoke_eq_ok {contact : Address} {signature : Bytes4}
    (h : revoke this target contacts contact signature = .ok contacts') :
    ⟨contact, signature, target⟩ ∈ granted contacts ∧
    granted contacts' = granted contacts \ {⟨contact, signature, target⟩} := by
  simp only [revoke, Call.bind_eq_ok, Call.require_eq_ok, AccessControl.revokeRole_eq_ok,
    Call.pure_eq_ok] at h
  obtain ⟨_, hr, c, ⟨_, rfl⟩, rfl⟩ := h
  refine ⟨hr, Set.ext fun r => ?_⟩
  cases r with | mk c' sig a =>
  rw [mem_granted_update]
  split
  case isTrue hc =>
    simp only at hc
    subst hc
    simp [granted, and_comm]
  case isFalse hc => simp_all

theorem grant_eq_ok {contact : Address} {signature : Bytes4}
    (h : grant this target contacts contact signature = .ok contacts') :
    granted contacts' = granted contacts ∪ {⟨contact, signature, target⟩} := by
  simp only [grant, Call.bind_eq_ok, AccessControl.grantRole_eq_ok, Call.pure_eq_ok] at h
  obtain ⟨c, ⟨_, rfl⟩, rfl⟩ := h
  ext r
  cases r with | mk c' sig a =>
  rw [mem_granted_update]
  split
  case isTrue hc =>
    simp only at hc
    subst hc
    simp [granted, or_comm]
  case isFalse hc => simp_all

-- The nested loops go through the roles of a plan.
theorem forEach_eq {α : Type} {permissions : List Permission} {f : α → Address → Bytes4 → Call α}
    {a : α} (target : Address) : forEach permissions f a =
    (roles target permissions).foldlM (fun a r => f a r.contact r.signature) a := by
  induction permissions generalizing a
  case nil => rfl
  case cons p permissions hi =>
    simp only [forEach, roles, List.foldlM_cons, List.flatMap_cons, List.foldlM_append,
      List.foldlM_map] at *
    exact bind_congr fun _ => hi

theorem revokeAll_eq_ok {l : List Role} (hl : ∀ r ∈ l, r.account = target)
    (h : l.foldlM (fun c r => revoke this target c r.contact r.signature) contacts =
      .ok contacts') :
    (∀ r ∈ l, r ∈ granted contacts) ∧ granted contacts' = granted contacts \ { r | r ∈ l } := by
  induction l generalizing contacts
  case nil => cases h; simp
  case cons r l hi =>
    simp only [List.foldlM_cons, Call.bind_eq_ok] at h
    obtain ⟨_, hr, h⟩ := h
    have ⟨hm, hr⟩ := revoke_eq_ok hr
    have ⟨hm', h⟩ := hi (fun r hr => hl r (.tail _ hr)) h
    rw [← hl r (.head _)] at hm hr
    refine ⟨fun r' hr' => ?_, ?_⟩
    · cases hr'
      case head    => exact hm
      case tail h' => exact (hr ▸ hm' r' h').left
    · rw [h, hr, Set.sdiff_sdiff]
      congr 1
      ext
      simp

theorem grantAll_eq_ok {l : List Role} (hl : ∀ r ∈ l, r.account = target)
    (h : l.foldlM (fun c r => grant this target c r.contact r.signature) contacts =
      .ok contacts') : granted contacts' = granted contacts ∪ { r | r ∈ l } := by
  induction l generalizing contacts
  case nil => cases h; simp
  case cons r l hi =>
    simp only [List.foldlM_cons, Call.bind_eq_ok] at h
    obtain ⟨_, hr, h⟩ := h
    rw [hi (fun r hr => hl r (.tail _ hr)) h, grant_eq_ok hr, ← hl r (.head _), Set.union_assoc]
    congr 1
    ext
    simp

theorem account_of_mem_roles {permissions : List Permission} {r : Role}
    (h : r ∈ roles target permissions) : r.account = target := by
  simp only [roles, List.mem_flatMap, List.mem_map] at h
  have ⟨_, _, _, _, he⟩ := h
  exact he ▸ rfl

theorem listed_eq {p : Plan Bytes} {permissions : List Permission}
    (h : abi.decode p.permissions = .ok permissions) :
    p.listed abi = { r | r ∈ roles p.target permissions } := by
  ext r
  refine ⟨fun ⟨_, hd, hr⟩ => ?_, fun hr => ⟨_, h, hr⟩⟩
  cases h.symm.trans hd
  exact hr

-- The roles which the plan at `h` would restore.
def State.withheld (abi : Abi Bytes) (s : State Bytes) (h : Bytes32) : Set Role :=
  { r | (s.plans h).state = .EXECUTED ∧ r ∈ (s.plans h).listed abi }

def State.updated (s : State Bytes) (txHash : Bytes32) (s' : State Bytes) : Prop :=
  ∀ h ≠ txHash, s'.plans h = s.plans h

-- What the calls do to the plan with which they deal, and to the roles.

structure State.Plans (s : State Bytes) (abi : Abi Bytes) (txHash : Bytes32)
    (permissions : List Permission) (s' : State Bytes) : Prop where
  before   : (s.plans txHash).state = .UNPLANNED
  after    : (s'.plans txHash).state = .PLANNED
  listed   : (s'.plans txHash).permissions = abi.encode permissions
  no_root  : ∀ p ∈ permissions, AccessControl.ROOT ∉ p.signatures
  others   : s.updated txHash s'
  contacts : s'.contacts = s.contacts

structure State.Deletes (s : State Bytes) (state : PlanState) (txHash : Bytes32)
    (s' : State Bytes) : Prop where
  before   : (s.plans txHash).state = state
  after    : (s'.plans txHash).state = .UNPLANNED
  others   : s.updated txHash s'
  contacts : s'.contacts = s.contacts

structure State.Executes (s : State Bytes) (abi : Abi Bytes) (txHash : Bytes32)
    (s' : State Bytes) : Prop where
  before   : (s.plans txHash).state = .PLANNED
  after    : s'.plans txHash = { s.plans txHash with state := .EXECUTED }
  others   : s.updated txHash s'
  held     : (s.plans txHash).listed abi ⊆ granted s.contacts
  contacts : granted s'.contacts = granted s.contacts \ (s.plans txHash).listed abi

structure State.Restores (s : State Bytes) (abi : Abi Bytes) (txHash : Bytes32)
    (s' : State Bytes) : Prop where
  before   : (s.plans txHash).state = .EXECUTED
  after    : s'.plans txHash = { s.plans txHash with state := .PLANNED }
  others   : s.updated txHash s'
  contacts : granted s'.contacts = granted s.contacts ∪ (s.plans txHash).listed abi

theorem no_root_of_forEach {permissions : List Permission}
    (h : forEach permissions (fun _ _ signature_ =>
      Call.require (signature_ ≠ AccessControl.ROOT) "Can't remove ROOT") () = .ok ()) :
    ∀ p ∈ permissions, AccessControl.ROOT ∉ p.signatures := by
  rw [forEach_eq 0] at h
  have hr : ∀ r ∈ roles 0 permissions, r.signature ≠ AccessControl.ROOT := by
    generalize roles 0 permissions = l at h
    induction l
    case nil => simp
    case cons r l hi =>
      simp only [List.foldlM_cons, Call.bind_eq_ok, Call.require_eq_ok] at h
      obtain ⟨_, hr, h⟩ := h
      exact List.forall_mem_cons.mpr ⟨hr, hi h⟩
  intro p hp hs
  refine hr ⟨p.contact, AccessControl.ROOT, 0⟩ ?_ rfl
  simp only [roles, List.mem_flatMap, List.mem_map]
  exact ⟨p, hp, _, hs, rfl⟩

theorem plan_eq_ok {permissions : List Permission} {hash : Bytes32}
    (h : plan abi this s sender target permissions = .ok (s', hash)) :
    s.Plans abi hash permissions s' := by
  simp only [plan, Call.bind_eq_ok, Call.require_eq_ok, Call.pure_eq_ok, Prod.mk.injEq] at h
  obtain ⟨_, _, _, hb, _, hf, rfl, rfl⟩ := h
  exact {
    before   := hb
    after    := by simp [setPlan]
    listed   := by simp [setPlan]
    no_root  := no_root_of_forEach hf
    others   := fun _ hn => by simp [setPlan, hn]
    contacts := rfl
  }

theorem cancel_eq_ok (h : cancel abi this s sender txHash = .ok s') :
    s.Deletes .PLANNED txHash s' := by
  simp only [cancel, Call.bind_eq_ok, Call.require_eq_ok, Call.pure_eq_ok] at h
  obtain ⟨_, _, _, hb, rfl⟩ := h
  exact ⟨hb, by simp [setPlan, deleted], fun _ hn => by simp [setPlan, hn], rfl⟩

theorem terminate_eq_ok (h : terminate abi this s sender txHash = .ok s') :
    s.Deletes .EXECUTED txHash s' := by
  simp only [terminate, Call.bind_eq_ok, Call.require_eq_ok, Call.pure_eq_ok] at h
  obtain ⟨_, _, _, hb, rfl⟩ := h
  exact ⟨hb, by simp [setPlan, deleted], fun _ hn => by simp [setPlan, hn], rfl⟩

theorem execute_eq_ok (h : execute abi this s sender txHash = .ok s') :
    s.Executes abi txHash s' := by
  simp only [execute, Call.bind_eq_ok, Call.require_eq_ok, Call.pure_eq_ok] at h
  obtain ⟨_, _, _, hb, permissions, hd, contacts, hf, rfl⟩ := h
  rw [forEach_eq (s.plans txHash).target] at hf
  obtain ⟨hm, hc⟩ := revokeAll_eq_ok (fun _ => account_of_mem_roles) hf
  exact {
    before   := hb
    after    := by simp [setPlan]
    others   := fun _ hn => by simp [setPlan, hn]
    held     := listed_eq hd ▸ hm
    contacts := listed_eq hd ▸ hc
  }

theorem restore_eq_ok (h : restore abi this s sender txHash = .ok s') :
    s.Restores abi txHash s' := by
  simp only [restore, Call.bind_eq_ok, Call.require_eq_ok, Call.pure_eq_ok] at h
  obtain ⟨_, _, _, hb, permissions, hd, contacts, hf, rfl⟩ := h
  rw [forEach_eq (s.plans txHash).target] at hf
  exact {
    before   := hb
    after    := by simp [setPlan]
    others   := fun _ hn => by simp [setPlan, hn]
    contacts := listed_eq hd ▸ grantAll_eq_ok (fun _ => account_of_mem_roles) hf
  }

-- The roles of the contacts in `scope` are held by their accounts, or withheld by executed plans.
def State.custody (abi : Abi Bytes) (scope : Set Address) (s : State Bytes) :
    Custody Role Bytes32 where
  held       := { r | r ∈ granted s.contacts ∧ r.contact ∈ scope }
  withheld h := { r | r ∈ s.withheld abi h ∧ r.contact ∈ scope }

variable {scope : Set Address} {P : Action → Prop} {discards : Prop}

theorem State.updated.withheld (h : s.updated txHash s') :
    ∀ j ≠ txHash, (s'.custody abi scope).withheld j = (s.custody abi scope).withheld j := by
  intro j hj
  simp only [State.custody, State.withheld, h j hj]

theorem withheld_eq_empty (h : (s.plans txHash).state ≠ .EXECUTED) :
    (s.custody abi scope).withheld txHash = ∅ := by
  simp [State.custody, State.withheld, h]

theorem withheld_eq_listed (h : (s.plans txHash).state = .EXECUTED) :
    (s.custody abi scope).withheld txHash =
    { r | r ∈ (s.plans txHash).listed abi ∧ r.contact ∈ scope } := by
  simp [State.custody, State.withheld, h]

theorem held_eq (h : s'.contacts = s.contacts) :
    (s'.custody abi scope).held = (s.custody abi scope).held := by
  simp only [State.custody, h]

-- Plans which are not executed do not matter.
theorem custody_idle (ho : s.updated txHash s') (hc : s'.contacts = s.contacts)
    (hb : (s.plans txHash).state ≠ .EXECUTED) (ha : (s'.plans txHash).state ≠ .EXECUTED) :
    (s.custody abi scope).Step discards (s'.custody abi scope) := by
  refine .idle (held_eq hc) (funext fun j => ?_)
  by_cases hj : j = txHash
  case pos => rw [hj, withheld_eq_empty ha, withheld_eq_empty hb]
  case neg => exact ho.withheld j hj

theorem State.Executes.custody_step (h : s.Executes abi txHash s') :
    (s.custody abi scope).Step discards (s'.custody abi scope) := by
  have hw : (s'.custody abi scope).withheld txHash =
      { r | r ∈ (s.plans txHash).listed abi ∧ r.contact ∈ scope } := by
    rw [withheld_eq_listed (by simp [h.after]), h.after]
    rfl
  refine .seize txHash ?_ (withheld_eq_empty (by simp [h.before])) ?_ h.others.withheld
  · exact hw ▸ fun r hr => ⟨h.held hr.left, hr.right⟩
  · ext r
    rw [hw]
    simp only [State.custody, h.contacts, Set.mem_ofPred_eq, Set.mem_sdiff]
    tauto

theorem State.Restores.custody_step (h : s.Restores abi txHash s') :
    (s.custody abi scope).Step discards (s'.custody abi scope) := by
  refine .release txHash (withheld_eq_empty (by simp [h.after])) ?_ h.others.withheld
  ext r
  rw [withheld_eq_listed h.before]
  simp only [State.custody, h.contacts, Set.mem_ofPred_eq, Set.mem_union]
  tauto

-- A call does what the custody of the roles allows.
theorem exec_custody_step {a : Action} (h : exec abi this s sender a = .ok s') :
    (s.custody abi scope).Step (∃ h, a = .terminate h) (s'.custody abi scope) := by
  cases a <;> simp only [exec, Call.map_eq_ok, Prod.exists, exists_and_right, exists_eq_right] at h
  case plan =>
    have ⟨_, h⟩ := h
    have h := plan_eq_ok h
    exact custody_idle h.others h.contacts (by simp [h.before]) (by simp [h.after])
  case cancel =>
    have h := cancel_eq_ok h
    exact custody_idle h.others h.contacts (by simp [h.before]) (by simp [h.after])
  case execute => exact (execute_eq_ok h).custody_step
  case restore => exact (restore_eq_ok h).custody_step
  case terminate txHash =>
    have h := terminate_eq_ok h
    exact .discard txHash ⟨_, rfl⟩ (withheld_eq_empty (by simp [h.after])) (held_eq h.contacts)
      h.others.withheld

-- The plans which are stored do not list ROOT.
def State.RootFree (abi : Abi Bytes) (s : State Bytes) : Prop :=
  ∀ h, (s.plans h).state ≠ .UNPLANNED →
    ∀ r ∈ (s.plans h).listed abi, r.signature ≠ AccessControl.ROOT

theorem State.updated.rootFree (h : s.updated txHash s') (hr : s.RootFree abi)
    (hp : (s'.plans txHash).state ≠ .UNPLANNED →
      ∀ r ∈ (s'.plans txHash).listed abi, r.signature ≠ AccessControl.ROOT) :
    s'.RootFree abi := by
  intro j
  by_cases hj : j = txHash
  case pos => exact hj ▸ hp
  case neg => exact h j hj ▸ hr j

theorem State.Plans.no_root_listed {permissions : List Permission} (ha : abi.Decodes)
    (h : s.Plans abi txHash permissions s') :
    ∀ r ∈ (s'.plans txHash).listed abi, r.signature ≠ AccessControl.ROOT := by
  rw [listed_eq (h.listed ▸ ha permissions)]
  intro r hr he
  simp only [roles, Set.mem_ofPred_eq, List.mem_flatMap, List.mem_map] at hr
  have ⟨p, hp, sig, hs, hr⟩ := hr
  subst hr
  exact h.no_root p hp (he ▸ hs)

theorem exec_rootFree {a : Action} (ha : abi.Decodes) (h : exec abi this s sender a = .ok s')
    (hr : s.RootFree abi) : s'.RootFree abi := by
  cases a <;> simp only [exec, Call.map_eq_ok, Prod.exists, exists_and_right, exists_eq_right] at h
  case plan =>
    have ⟨_, h⟩ := h
    have h := plan_eq_ok h
    exact h.others.rootFree hr fun _ => h.no_root_listed ha
  case cancel =>
    have h := cancel_eq_ok h
    exact h.others.rootFree hr fun hp => absurd h.after hp
  case terminate =>
    have h := terminate_eq_ok h
    exact h.others.rootFree hr fun hp => absurd h.after hp
  case execute txHash =>
    have h := execute_eq_ok h
    exact h.others.rootFree hr fun _ => h.after ▸ hr txHash (by simp [h.before])
  case restore txHash =>
    have h := restore_eq_ok h
    exact h.others.rootFree hr fun _ => h.after ▸ hr txHash (by simp [h.before])

-- So no call ever changes who has ROOT.
theorem exec_root {a : Action} (h : exec abi this s sender a = .ok s') (hr : s.RootFree abi)
    (c account : Address) : (s'.contacts c).hasRole AccessControl.ROOT account =
    (s.contacts c).hasRole AccessControl.ROOT account := by
  have hl : ∀ h, (s.plans h).state ≠ .UNPLANNED →
      ⟨c, AccessControl.ROOT, account⟩ ∉ (s.plans h).listed abi :=
    fun h hp hm => hr h hp _ hm rfl
  suffices hg : ⟨c, AccessControl.ROOT, account⟩ ∈ granted s'.contacts ↔
      ⟨c, AccessControl.ROOT, account⟩ ∈ granted s.contacts from Bool.eq_iff_iff.mpr hg
  cases a <;> simp only [exec, Call.map_eq_ok, Prod.exists, exists_and_right, exists_eq_right] at h
  case plan =>
    have ⟨_, h⟩ := h
    rw [(plan_eq_ok h).contacts]
  case cancel    => rw [(cancel_eq_ok h).contacts]
  case terminate => rw [(terminate_eq_ok h).contacts]
  case execute txHash =>
    have h := execute_eq_ok h
    simp [h.contacts, hl txHash (by simp [h.before])]
  case restore txHash =>
    have h := restore_eq_ok h
    simp [h.contacts, hl txHash (by simp [h.before])]

-- The steps of an execution, in which all calls satisfy `P`. Apart from these, only the roles of
-- contacts out of `scope` change.
inductive Step (abi : Abi Bytes) (this : Address) (scope : Set Address) (P : Action → Prop) :
    State Bytes → State Bytes → Prop
  | call {s s' : State Bytes} {sender : Address} {a : Action} :
    P a → exec abi this s sender a = .ok s' → Step abi this scope P s s'
  | others {s : State Bytes} {contacts : Address → AccessControl} :
    (∀ c ∈ scope, ∀ sig a, (contacts c).hasRole sig a = (s.contacts c).hasRole sig a) →
    Step abi this scope P s { s with contacts }

theorem step_custody (h : Step abi this scope P s s') :
    (s.custody abi scope).Step (∃ h, P (.terminate h)) (s'.custody abi scope) := by
  cases h
  case call a hp h =>
    refine (exec_custody_step h).imp fun ⟨h, he⟩ => ⟨h, he ▸ hp⟩
  case others h =>
    refine .idle (Set.ext fun r => ?_) rfl
    simp only [State.custody, granted, Set.mem_ofPred_eq]
    exact ⟨fun ⟨hr, hs⟩ => ⟨h _ hs _ _ ▸ hr, hs⟩, fun ⟨hr, hs⟩ => ⟨h _ hs _ _ ▸ hr, hs⟩⟩

theorem step_rootFree (ha : abi.Decodes) :
    Preserves (Step abi this scope P) (·.RootFree abi) := by
  intro _ _ stp hr
  cases stp
  case call h => exact exec_rootFree ha h hr
  case others => exact hr

theorem steps_custody (e : Steps (Step abi this scope P) s s') :
    Steps (Custody.Step (∃ h, P (.terminate h))) (s.custody abi scope) (s'.custody abi scope) := by
  induction e
  case refl          => exact .refl
  case tail _ stp hi => exact hi.tail (step_custody stp)

theorem init_withheld {planner executor : Address} (h : Bytes32) :
    ((init abi this sender planner executor contacts).custody abi scope).withheld h = ∅ :=
  withheld_eq_empty (by simp [init, deleted])

theorem init_apart {planner executor : Address} :
    ((init abi this sender planner executor contacts).custody abi scope).Apart where
  held h         := init_withheld h ▸ Set.disjoint_empty _
  withheld h _ _ := init_withheld h ▸ Set.empty_disjoint _

-- The roles which are held, and those which each of the executed plans would restore, are always
-- apart, and all of them have been there in the first place. They get lost only by `terminate`.
theorem no_new_permissions {planner executor : Address} (ha : abi.Decodes)
    (e : Steps (Step abi this scope P) (init abi this sender planner executor contacts) s) :
    let created := (init abi this sender planner executor contacts).custody abi scope
    let current := s.custody abi scope
    (∀ h, Disjoint current.held (current.withheld h)) ∧
    (∀ h h', h ≠ h' → Disjoint (current.withheld h) (current.withheld h')) ∧
    (current.held ∪ ⋃ h, current.withheld h) ⊆ created.held ∧
    ((∀ h, ¬P (.terminate h)) → (current.held ∪ ⋃ h, current.withheld h) = created.held) ∧
    (∀ sender a s', exec abi this s sender a = .ok s' → ∀ c account,
      (s'.contacts c).hasRole AccessControl.ROOT account =
      (s.contacts c).hasRole AccessControl.ROOT account) := by
  have hc := steps_custody e
  have hp := Custody.steps_apart hc init_apart
  have hr : s.RootFree abi := (step_rootFree ha).steps e fun _ h => absurd rfl h
  have hi : ((init abi this sender planner executor contacts).custody abi scope).all =
      ((init abi this sender planner executor contacts).custody abi scope).held := by
    simp [Custody.all, init_withheld]
  exact ⟨hp.held, hp.withheld, hi ▸ Custody.steps_all_subset hc,
    fun ht => hi ▸ Custody.steps_all_eq hc (by simpa using ht), fun _ _ _ h => exec_root h hr⟩

namespace Drill

def permissions : List Permission :=
  [⟨9, [0x12345678]⟩]

def drillHash : Bytes32 := 0xe84c19b6dfbbab53b670b93705ccacba3269b16efe6def0438ee81938a3f0f24

-- Permissions are kept as they are, and the plan of the drill has its hash.
def encoding : Abi (List Permission) where
  empty       := []
  encode      := id
  decode      := .ok
  hash a p    := if a = 5 ∧ p = permissions then drillHash else 0

-- A contract which has given ROOT to the brake, and one role to the account 5.
def pools (a : Address) : AccessControl :=
  if a = 9 then ((AccessControl.init 8)._grantRole AccessControl.ROOT 2)._grantRole 0x12345678 5
  else .init 8

def created : State (List Permission) :=
  init encoding 2 8 6 7 pools

def isolated : Call (State (List Permission)) := do
  let s ← exec encoding 2 created 6 (.plan 5 permissions)
  exec encoding 2 s 7 (.execute drillHash)

end Drill

theorem no_new_permissions_isolated : ∃ s, Drill.isolated = .ok s ∧
    (s.contacts 9).hasRole 0x12345678 5 = false ∧
    ((s.custody Drill.encoding Set.univ).held ∪ ⋃ h, (s.custody Drill.encoding Set.univ).withheld h) =
      (Drill.created.custody Drill.encoding Set.univ).held := by
  have hr : (fun s => (s.contacts 9).hasRole 0x12345678 5) <$> Drill.isolated = .ok false := by
    decide +kernel
  have ⟨s, hs, hr⟩ := Call.map_eq_ok.mp hr
  have ⟨s₁, h₁, h₂⟩ := Call.bind_eq_ok.mp hs
  have e : Steps (Step Drill.encoding 2 Set.univ fun a => ∀ h, a ≠ .terminate h) Drill.created s :=
    .head (.call (by simp) h₁) (.single (.call (by simp) h₂))
  have ⟨_, _, _, hl, _⟩ := no_new_permissions (fun _ => rfl) e
  exact ⟨s, hs, hr, hl fun h hn => hn h rfl⟩

end OldEmergencyBrake
