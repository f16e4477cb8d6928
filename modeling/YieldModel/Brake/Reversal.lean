import YieldModel.Brake.Isolation

open Execution

namespace OldEmergencyBrake

variable {Bytes : Type} {abi : Abi Bytes} {this sender target : Address} {s s' : State Bytes}
variable {contacts contacts' : Address → AccessControl} {txHash : Bytes32}
variable {contact : Address} {signature : Bytes4} {l : List Role} {r : Role}

-- The brake is able to revoke and to grant a role, which is not ROOT.
structure Manages (this : Address) (contacts : Address → AccessControl) (r : Role) : Prop where
  signature : r.signature ≠ AccessControl.ROOT
  admin     : (contacts r.contact).getRoleAdmin r.signature = AccessControl.ROOT
  root      : (contacts r.contact).hasRole AccessControl.ROOT this = true

-- The admins of all roles are the same.
def SameAdmins (contacts contacts' : Address → AccessControl) : Prop :=
  ∀ a sig, (contacts' a).getRoleAdmin sig = (contacts a).getRoleAdmin sig

theorem revoke_admins (h : revoke this target contacts contact signature = .ok contacts') :
    SameAdmins contacts contacts' := by
  simp only [revoke, Call.bind_eq_ok, AccessControl.revokeRole_eq_ok, Call.pure_eq_ok] at h
  obtain ⟨_, -, _, ⟨-, rfl⟩, rfl⟩ := h
  intro a sig
  by_cases ha : a = contact
  case pos => rw [ha, Function.update_self, AccessControl.getRoleAdmin_revokeRole]
  case neg => rw [Function.update_of_ne ha]

theorem grant_admins (h : grant this target contacts contact signature = .ok contacts') :
    SameAdmins contacts contacts' := by
  simp only [grant, Call.bind_eq_ok, AccessControl.grantRole_eq_ok, Call.pure_eq_ok] at h
  obtain ⟨_, ⟨-, rfl⟩, rfl⟩ := h
  intro a sig
  by_cases ha : a = contact
  case pos => rw [ha, Function.update_self, AccessControl.getRoleAdmin_grantRole]
  case neg => rw [Function.update_of_ne ha]

theorem SameAdmins.trans {c c' c'' : Address → AccessControl} (h : SameAdmins c c')
    (h' : SameAdmins c' c'') : SameAdmins c c'' :=
  fun a sig => (h' a sig).trans (h a sig)

-- What is done to other roles than ROOT does not keep the brake from going on.
theorem Manages.of_granted (h : Manages this contacts r) (ha : SameAdmins contacts contacts')
    (hg : ∀ c, (⟨c, AccessControl.ROOT, this⟩ : Role) ∈ granted contacts →
      ⟨c, AccessControl.ROOT, this⟩ ∈ granted contacts') : Manages this contacts' r where
  signature := h.signature
  admin     := (ha _ _).trans h.admin
  root      := hg _ h.root

theorem Manages.revoke {q : Role} (h : Manages this contacts r)
    (hq : q.signature ≠ AccessControl.ROOT)
    (hr : revoke this q.account contacts q.contact q.signature = .ok contacts') :
    Manages this contacts' r := by
  refine h.of_granted (revoke_admins hr) fun c hc => ?_
  rw [(revoke_eq_ok hr).right]
  exact ⟨hc, fun he => hq (congrArg Role.signature he).symm⟩

theorem Manages.grant {q : Role} (h : Manages this contacts r)
    (hr : grant this q.account contacts q.contact q.signature = .ok contacts') :
    Manages this contacts' r := by
  refine h.of_granted (grant_admins hr) fun c hc => ?_
  rw [grant_eq_ok hr]
  exact .inl hc

theorem exists_revoke_iff (h : Manages this contacts r) :
    (∃ c, revoke this r.account contacts r.contact r.signature = .ok c) ↔ r ∈ granted contacts := by
  simp only [revoke, Call.bind_eq_ok, Call.require_eq_ok, AccessControl.revokeRole_eq_ok,
    Call.pure_eq_ok]
  constructor
  case mp =>
    rintro ⟨_, _, hr, -⟩
    exact hr
  case mpr => exact fun hr => ⟨_, (), hr, _, ⟨h.admin ▸ h.root, rfl⟩, rfl⟩

theorem exists_grant (h : Manages this contacts r) :
    ∃ c, grant this r.account contacts r.contact r.signature = .ok c := by
  simp only [OldEmergencyBrake.grant, Call.bind_eq_ok, AccessControl.grantRole_eq_ok,
    Call.pure_eq_ok]
  exact ⟨_, _, ⟨h.admin ▸ h.root, rfl⟩, rfl⟩

-- The loops over the roles of a plan. A role which is listed twice is not there at the second visit.

def revokeAll (this target : Address) (l : List Role) (contacts : Address → AccessControl) :
    Call (Address → AccessControl) :=
  l.foldlM (fun c r => revoke this target c r.contact r.signature) contacts

def grantAll (this target : Address) (l : List Role) (contacts : Address → AccessControl) :
    Call (Address → AccessControl) :=
  l.foldlM (fun c r => grant this target c r.contact r.signature) contacts

theorem exists_revokeAll_iff (hl : ∀ r ∈ l, r.account = target)
    (hm : ∀ r ∈ l, Manages this contacts r) :
    (∃ c, revokeAll this target l contacts = .ok c) ↔ l.Nodup ∧ ∀ r ∈ l, r ∈ granted contacts := by
  induction l generalizing contacts
  case nil => simp [revokeAll, Call.pure_eq_ok]
  case cons r l hi =>
    have hr := hm r (.head _)
    have ha := hl r (.head _)
    subst ha
    simp only [revokeAll, List.foldlM_cons, Call.bind_eq_ok]
    constructor
    case mp =>
      rintro ⟨c, c₁, h₁, h⟩
      have ⟨hg, hg₁⟩ := revoke_eq_ok h₁
      have hi := (hi (fun q hq => hl q (.tail _ hq))
        fun q hq => (hm q (.tail _ hq)).revoke hr.signature h₁).mp ⟨c, h⟩
      have hn : ∀ q ∈ l, q ∈ granted contacts ∧ q ≠ r := fun q hq => by
        simpa [hg₁] using hi.right q hq
      refine ⟨List.nodup_cons.mpr ⟨fun hx => (hn r hx).right rfl, hi.left⟩, ?_⟩
      exact List.forall_mem_cons.mpr ⟨hg, fun q hq => (hn q hq).left⟩
    case mpr =>
      rintro ⟨hn, hg⟩
      obtain ⟨hx, hn⟩ := List.nodup_cons.mp hn
      obtain ⟨hg, hgl⟩ := List.forall_mem_cons.mp hg
      obtain ⟨c₁, h₁⟩ := (exists_revoke_iff hr).mpr hg
      have hg₁ := (revoke_eq_ok h₁).right
      obtain ⟨c, h⟩ := (hi (fun q hq => hl q (.tail _ hq))
        fun q hq => (hm q (.tail _ hq)).revoke hr.signature h₁).mpr
        ⟨hn, fun q hq => hg₁ ▸ ⟨hgl q hq, fun he => hx ((show q = r from he) ▸ hq)⟩⟩
      exact ⟨c, c₁, h₁, h⟩

theorem exists_grantAll (hl : ∀ r ∈ l, r.account = target)
    (hm : ∀ r ∈ l, Manages this contacts r) : ∃ c, grantAll this target l contacts = .ok c := by
  induction l generalizing contacts
  case nil => exact ⟨contacts, rfl⟩
  case cons r l hi =>
    have ha := hl r (.head _)
    subst ha
    obtain ⟨c₁, h₁⟩ := exists_grant (hm r (.head _))
    obtain ⟨c, h⟩ := hi (fun q hq => hl q (.tail _ hq)) fun q hq => (hm q (.tail _ hq)).grant h₁
    exact ⟨c, Call.bind_eq_ok.mpr ⟨c₁, h₁, h⟩⟩

theorem revokeAll_admins (h : revokeAll this target l contacts = .ok contacts') :
    SameAdmins contacts contacts' := by
  induction l generalizing contacts
  case nil => cases h; exact fun _ _ => rfl
  case cons r l hi =>
    obtain ⟨c₁, h₁, h⟩ := Call.bind_eq_ok.mp h
    exact (revoke_admins h₁).trans (hi h)

theorem grantAll_admins (h : grantAll this target l contacts = .ok contacts') :
    SameAdmins contacts contacts' := by
  induction l generalizing contacts
  case nil => cases h; exact fun _ _ => rfl
  case cons r l hi =>
    obtain ⟨c₁, h₁, h⟩ := Call.bind_eq_ok.mp h
    exact (grant_admins h₁).trans (hi h)

-- What the two calls come down to.

theorem exists_execute_iff {permissions : List Permission}
    (hd : abi.decode (s.plans txHash).permissions = .ok permissions)
    (ha : auth this s selector.execute sender = .ok ()) :
    (∃ s', execute abi this s sender txHash = .ok s') ↔ (s.plans txHash).state = .PLANNED ∧
      ∃ c, revokeAll this (s.plans txHash).target (roles (s.plans txHash).target permissions)
        s.contacts = .ok c := by
  simp only [execute, Call.bind_eq_ok, Call.require_eq_ok, Call.pure_eq_ok,
    forEach_eq (s.plans txHash).target]
  constructor
  case mp =>
    rintro ⟨_, _, -, _, hp, _, hd', c, h, -⟩
    cases hd.symm.trans hd'
    exact ⟨hp, c, h⟩
  case mpr =>
    rintro ⟨hp, c, h⟩
    exact ⟨_, (), ha, (), hp, _, hd, c, h, rfl⟩

theorem execute_admins (h : execute abi this s sender txHash = .ok s') :
    SameAdmins s.contacts s'.contacts := by
  simp only [execute, Call.bind_eq_ok, Call.pure_eq_ok, forEach_eq (s.plans txHash).target] at h
  obtain ⟨_, -, _, -, _, -, _, h, rfl⟩ := h
  exact revokeAll_admins h

theorem restore_admins (h : restore abi this s sender txHash = .ok s') :
    SameAdmins s.contacts s'.contacts := by
  simp only [restore, Call.bind_eq_ok, Call.pure_eq_ok, forEach_eq (s.plans txHash).target] at h
  obtain ⟨_, -, _, -, _, -, _, h, rfl⟩ := h
  exact grantAll_admins h

theorem exists_restore {permissions : List Permission}
    (hd : abi.decode (s.plans txHash).permissions = .ok permissions)
    (hp : (s.plans txHash).state = .EXECUTED)
    (hm : ∀ r ∈ roles (s.plans txHash).target permissions, Manages this s.contacts r)
    (ha : auth this s selector.restore sender = .ok ()) :
    ∃ s', restore abi this s sender txHash = .ok s' := by
  obtain ⟨c, h⟩ := exists_grantAll (fun _ => account_of_mem_roles) hm
  simp only [restore, Call.bind_eq_ok, Call.require_eq_ok, Call.pure_eq_ok,
    forEach_eq (s.plans txHash).target]
  exact ⟨_, (), ha, (), hp, _, hd, c, h, rfl⟩

-- The same roles with the same admins are the same tables.
theorem contacts_ext (hg : granted contacts' = granted contacts)
    (ha : SameAdmins contacts contacts') : contacts' = contacts := by
  funext c
  refine AccessControl.ext_roles (fun sig a => Bool.eq_iff_iff.mpr ?_) (ha c)
  exact Set.ext_iff.mp hg ⟨c, sig, a⟩

theorem State.Executes.manages (h : s.Executes abi txHash s') (hr : s.RootFree abi)
    (ha : SameAdmins s.contacts s'.contacts) (hm : Manages this s.contacts r) :
    Manages this s'.contacts r := by
  refine hm.of_granted ha fun c hc => ?_
  rw [h.contacts]
  exact ⟨hc, fun hl => hr txHash (by simp [h.before]) _ hl rfl⟩

theorem restore_execute (h : s.Executes abi txHash s') (ha : SameAdmins s.contacts s'.contacts)
    {s'' : State Bytes} {caller : Address} (hs : restore abi this s' caller txHash = .ok s'') :
    s'' = s := by
  have hr := restore_eq_ok hs
  have hl : (s'.plans txHash).listed abi = (s.plans txHash).listed abi := by rw [h.after]; rfl
  have hc : s''.contacts = s.contacts := by
    refine contacts_ext ?_ (ha.trans (restore_admins hs))
    rw [hr.contacts, hl, h.contacts, Set.sdiff_union_of_subset h.held]
  have hp : s''.plans = s.plans := by
    funext j
    by_cases hj : j = txHash
    case neg => rw [hr.others j hj, h.others j hj]
    case pos =>
      have hb := h.before
      rw [hj, hr.after, h.after]
      generalize s.plans txHash = p at hb
      cases p
      cases hb
      rfl
  cases s
  cases s''
  cases hc
  cases hp
  rfl

-- A plan can be executed if and only if it is planned, no role is listed twice, and all of them are
-- held. This is undone by a call of `restore`. (The plan may be about the brake itself, so the caller
-- has to be one who is still authorised.)
theorem execute_iff_restorable {creator planner executor : Address} {scope : Set Address}
    {P : Action → Prop} {permissions : List Permission} (hd : abi.Decodes)
    (e : Steps (Step abi this scope P) (init abi this creator planner executor contacts) s)
    (hp : (s.plans txHash).state ≠ .UNPLANNED)
    (hl : abi.decode (s.plans txHash).permissions = .ok permissions)
    (hm : ∀ r ∈ roles (s.plans txHash).target permissions,
      (s.contacts r.contact).getRoleAdmin r.signature = AccessControl.ROOT ∧
      (s.contacts r.contact).hasRole AccessControl.ROOT this)
    (ha : auth this s selector.execute sender = .ok ()) :
    ((∃ s', execute abi this s sender txHash = .ok s') ↔
      (s.plans txHash).state = .PLANNED ∧
      (roles (s.plans txHash).target permissions).Nodup ∧
      ∀ r ∈ roles (s.plans txHash).target permissions, r ∈ granted s.contacts) ∧
    ∀ s', execute abi this s sender txHash = .ok s' →
      granted s'.contacts =
        granted s.contacts \ { r | r ∈ roles (s.plans txHash).target permissions } ∧
      SameAdmins s.contacts s'.contacts ∧
      ∀ caller, auth this s' selector.restore caller = .ok () →
        restore abi this s' caller txHash = .ok s := by
  have hr : s.RootFree abi := (step_rootFree hd).steps e fun _ h => absurd rfl h
  have hm : ∀ r ∈ roles (s.plans txHash).target permissions, Manages this s.contacts r :=
    fun r hx => ⟨hr txHash hp r ⟨permissions, hl, hx⟩, (hm r hx).left, (hm r hx).right⟩
  constructor
  case left =>
    rw [exists_execute_iff hl ha, exists_revokeAll_iff (fun _ => account_of_mem_roles) hm]
  case right =>
    intro s' h
    have hx := execute_eq_ok h
    have hs := execute_admins h
    refine ⟨listed_eq hl ▸ hx.contacts, hs, fun caller hc => ?_⟩
    have hl' : abi.decode (s'.plans txHash).permissions = .ok permissions := by rwa [hx.after]
    have ht : (s'.plans txHash).target = (s.plans txHash).target := by rw [hx.after]
    obtain ⟨s'', hs'⟩ := exists_restore hl' (by rw [hx.after])
      (fun r hm' => hx.manages hr hs (hm r (ht ▸ hm'))) hc
    exact hs'.trans (congrArg _ (restore_execute hx hs hs'))

theorem execute_iff_restorable_drill : ∃ s s',
    exec Drill.encoding 2 Drill.created 6 (.plan 5 Drill.permissions) = .ok s ∧
    execute Drill.encoding 2 s 7 Drill.drillHash = .ok s' ∧
    granted s'.contacts = granted s.contacts \ { r | r ∈ roles 5 Drill.permissions } ∧
    restore Drill.encoding 2 s' 6 Drill.drillHash = .ok s := by
  have hf : (fun s => ((s.plans Drill.drillHash).state, (s.plans Drill.drillHash).target,
      (s.plans Drill.drillHash).permissions)) <$>
      exec Drill.encoding 2 Drill.created 6 (.plan 5 Drill.permissions) =
      .ok (.PLANNED, 5, Drill.permissions) := by decide +kernel
  obtain ⟨s, hs, hf⟩ := Call.map_eq_ok.mp hf
  have hc : s.contacts = Drill.created.contacts := by
    obtain ⟨_, h, rfl⟩ := Call.map_eq_ok.mp hs
    exact (plan_eq_ok h).contacts
  have hy : (fun s => auth 2 s selector.restore 6) <$> Drill.isolated = .ok (.ok ()) := by
    decide +kernel
  obtain ⟨_, hs', hy⟩ := Call.map_eq_ok.mp hy
  obtain ⟨_, hs₁, hx⟩ := Call.bind_eq_ok.mp hs'
  cases hs.symm.trans hs₁
  simp only [Prod.mk.injEq] at hf
  obtain ⟨hp, ht, hl⟩ := hf
  have hm : ∀ r ∈ roles 5 Drill.permissions,
      (Drill.created.contacts r.contact).getRoleAdmin r.signature = AccessControl.ROOT ∧
      (Drill.created.contacts r.contact).hasRole AccessControl.ROOT 2 = true := by decide +kernel
  have ha : auth 2 s selector.execute 7 = .ok () := by
    rw [auth, hc]
    decide +kernel
  have e : Steps (Step Drill.encoding 2 Set.univ fun _ => True) Drill.created s :=
    .single (.call trivial hs)
  obtain ⟨-, h⟩ := execute_iff_restorable (fun _ => rfl) e (by simp [hp]) (congrArg _ hl)
    (ht ▸ hc ▸ hm) ha
  obtain ⟨hg, -, hb⟩ := h _ hx
  rw [ht] at hg
  exact ⟨s, _, hs, hx, hg, hb 6 hy⟩

end OldEmergencyBrake
