import YieldModel.Brake.Isolation

namespace OldEmergencyBrake.Orchestration

-- The addresses of the protocol, and what the Ladle and the Cauldron know about assets. Proposals
-- are executed by the timelock.
structure Protocol where
  timelock : Address
  cloak    : Address
  witch    : Address
  joins    : Bytes6 → Address
  fyTokens : Bytes6 → Address
  deployed : Address → Bool

inductive Tx
  | grantRole (contact : Address) (signature : Bytes4) (account : Address)
  | plan (target : Address) (permissions : List Permission)

abbrev Proposal := List Tx

namespace selector

def join               : Bytes4 := 0xceae3abd
def burn               : Bytes4 := 0x9dc29fac
def exit               : Bytes4 := 0x12e5ff77
def deterministicBuild : Bytes4 := 0x4608481b

end selector

variable {Bytes : Type}

def Tx.execute (abi : Abi Bytes) (sys : Protocol) (s : State Bytes) : Tx → Call (State Bytes)
  | .grantRole contact signature account => do
    let c ← (s.contacts contact).grantRole sys.timelock signature account
    return { s with contacts := Function.update s.contacts contact c }
  | .plan target permissions =>
    Prod.fst <$> OldEmergencyBrake.plan abi sys.cloak s sys.timelock target permissions

def Proposal.execute (abi : Abi Bytes) (sys : Protocol) (s : State Bytes) (proposal : Proposal) :
    Call (State Bytes) :=
  proposal.foldlM (Tx.execute abi sys) s

-- What is done for a role of the Witch: it is granted if it is missing, and only then it is looked
-- up if there is a plan to revoke it.
def orchestrate (abi : Abi Bytes) (sys : Protocol) (s : State Bytes) (contact : Address)
    (signature : Bytes4) : Call Proposal := do
  Call.require (sys.deployed contact) "call revert exception"
  let plan := [⟨contact, [signature]⟩]
  return if ¬(s.contacts contact).hasRole signature sys.witch then
    .grantRole contact signature sys.witch ::
      if (s.plans (abi.hash sys.witch plan)).state = .UNPLANNED then
        [.plan sys.witch plan]
      else
        []
  else
    []

-- Allow Witch to join base
def orchestrateBase (abi : Abi Bytes) (sys : Protocol) (s : State Bytes) (baseId : Bytes6) :
    Call Proposal :=
  orchestrate abi sys s (sys.joins baseId) selector.join

-- Allow Witch to burn fyTokens
def orchestrateSeries (abi : Abi Bytes) (sys : Protocol) (s : State Bytes) (seriesId : Bytes6) :
    Call Proposal :=
  orchestrate abi sys s (sys.fyTokens seriesId) selector.burn

-- Allow Witch to exit ilk
def orchestrateIlk (abi : Abi Bytes) (sys : Protocol) (s : State Bytes) (ilkId : Bytes6) :
    Call Proposal :=
  orchestrate abi sys s (sys.joins ilkId) selector.exit

def orchestrateAuctionAssets (abi : Abi Bytes) (sys : Protocol) (s : State Bytes)
    (baseIds ilkIds seriesIds : List Bytes6) : Call Proposal := do
  let bases ← baseIds.mapM (orchestrateBase abi sys s)
  let series ← seriesIds.mapM (orchestrateSeries abi sys s)
  let ilks ← ilkIds.mapM (orchestrateIlk abi sys s)
  return (bases ++ series ++ ilks).flatten

-- The target of the plan is the contact, and not the account which gets the role.
def orchestrateContangoLadle (contangoAddress contangoLadle : Address) : Proposal :=
  [ .grantRole contangoLadle selector.deterministicBuild contangoAddress,
    .plan contangoLadle [⟨contangoLadle, [selector.deterministicBuild]⟩] ]

inductive Input
  | auctionAssets (baseIds ilkIds seriesIds : List Bytes6)
  | contangoLadle (contangoAddress contangoLadle : Address)

def build (abi : Abi Bytes) (sys : Protocol) (s : State Bytes) : Input → Call Proposal
  | .auctionAssets baseIds ilkIds seriesIds =>
    orchestrateAuctionAssets abi sys s baseIds ilkIds seriesIds
  | .contangoLadle contangoAddress contangoLadle =>
    .ok (orchestrateContangoLadle contangoAddress contangoLadle)

-- The roles which a proposal grants.
def Tx.grants : Tx → Option Role
  | .grantRole contact signature account => some ⟨contact, signature, account⟩
  | .plan ..                             => none

def Proposal.grants (proposal : Proposal) : List Role :=
  proposal.filterMap Tx.grants

def withRoles (contacts : Address → AccessControl) (l : List Role) : Address → AccessControl :=
  l.foldl (fun contacts r => Function.update contacts r.contact
    ((contacts r.contact)._grantRole r.signature r.account)) contacts

-- The roles which are orchestrated, and those which are missing.

def required (sys : Protocol) : Input → List Role
  | .auctionAssets baseIds ilkIds seriesIds =>
    baseIds.map (fun baseId => ⟨sys.joins baseId, selector.join, sys.witch⟩) ++
    seriesIds.map (fun seriesId => ⟨sys.fyTokens seriesId, selector.burn, sys.witch⟩) ++
    ilkIds.map (fun ilkId => ⟨sys.joins ilkId, selector.exit, sys.witch⟩)
  | .contangoLadle contangoAddress contangoLadle =>
    [⟨contangoLadle, selector.deterministicBuild, contangoAddress⟩]

def missing (sys : Protocol) (s : State Bytes) (i : Input) : List Role :=
  match i with
  | .auctionAssets .. =>
    (required sys i).filter fun r => ¬(s.contacts r.contact).hasRole r.signature r.account
  | .contangoLadle .. => required sys i

variable {abi : Abi Bytes} {sys : Protocol} {s s₁ s' : State Bytes} {this executor : Address}
variable {contacts : Address → AccessControl} {proposal : Proposal} {i : Input} {r : Role}

-- One can isolate the account of a role: the role is listed in a plan for this account, and the
-- execution of this plan succeeds and takes the role away.
def Isolates (abi : Abi Bytes) (this executor : Address) (s : State Bytes) (r : Role) : Prop :=
  ∃ h s', (s.plans h).state = .PLANNED ∧ (s.plans h).target = r.account ∧
    r ∈ (s.plans h).listed abi ∧ execute abi this s executor h = .ok s' ∧ r ∉ granted s'.contacts

-- A plan which does this while the contacts are as they are.
structure Plan.Ready (abi : Abi Bytes) (this : Address) (contacts : Address → AccessControl)
    (r : Role) (p : Plan Bytes) : Prop where
  state   : p.state = .PLANNED
  target  : p.target = r.account
  revokes : ∃ permissions contacts', abi.decode p.permissions = .ok permissions ∧
            r ∈ roles p.target permissions ∧
            forEach permissions (revoke this p.target) contacts = .ok contacts'

theorem Isolates.ready (h : Isolates abi this executor s r) :
    ∃ hash, Plan.Ready abi this s.contacts r (s.plans hash) := by
  have ⟨hash, s', hs, ht, ⟨permissions, hd, hr⟩, he, _⟩ := h
  simp only [execute, Call.bind_eq_ok, Call.require_eq_ok, Call.pure_eq_ok] at he
  obtain ⟨_, _, _, _, permissions', hd', contacts, hf, _⟩ := he
  cases hd.symm.trans hd'
  exact ⟨hash, hs, ht, permissions, contacts, hd, hr, hf⟩

theorem Plan.Ready.isolates {hash : Bytes32}
    (hx : (s.contacts this).hasRole selector.execute executor = true)
    (h : Plan.Ready abi this s.contacts r (s.plans hash)) : Isolates abi this executor s r := by
  obtain ⟨hs, ht, permissions, contacts, hd, hr, hf⟩ := h
  have he : execute abi this s executor hash = .ok
      { setPlan s hash { s.plans hash with state := .EXECUTED } with contacts } := by
    simp only [execute, auth, AccessControl.auth, Call.bind_eq_ok, Call.require_eq_ok,
      Call.pure_eq_ok]
    exact ⟨(), hx, (), hs, permissions, hd, contacts, hf, rfl⟩
  have hl : r ∈ (s.plans hash).listed abi := ⟨permissions, hd, hr⟩
  exact ⟨hash, _, hs, ht, hl, he, (execute_eq_ok he).contacts ▸ fun hn => hn.right hl⟩

theorem granted_withRoles {l : List Role} :
    granted (withRoles contacts l) = granted contacts ∪ { r | r ∈ l } := by
  induction l generalizing contacts
  case nil => simp [withRoles]
  case cons r l hi =>
    have hg : granted (Function.update contacts r.contact
        ((contacts r.contact)._grantRole r.signature r.account)) = granted contacts ∪ {r} := by
      ext r'
      cases r with | mk c sig a =>
      cases r' with | mk c' sig' a' =>
      rw [mem_granted_update]
      split <;> simp_all [granted, or_comm]
    simp only [withRoles, List.foldl_cons] at hi ⊢
    rw [hi, hg, Set.union_assoc]
    congr 1
    ext
    simp

-- What the execution of a proposal does.
structure Executes (abi : Abi Bytes) (s : State Bytes) (proposal : Proposal) (s' : State Bytes) :
    Prop where
  contacts : s'.contacts = withRoles s.contacts proposal.grants
  before   : ∀ target permissions, .plan target permissions ∈ proposal →
             (s.plans (abi.hash target permissions)).state = .UNPLANNED
  after    : ∀ target permissions, .plan target permissions ∈ proposal →
             s'.plans (abi.hash target permissions) = ⟨.PLANNED, target, abi.encode permissions⟩
  others   : ∀ h, (∀ target permissions, .plan target permissions ∈ proposal →
             h ≠ abi.hash target permissions) → s'.plans h = s.plans h

theorem Executes.grantRole {contact account : Address} {signature : Bytes4}
    (h : Tx.execute abi sys s (.grantRole contact signature account) = .ok s₁)
    (hp : Executes abi s₁ proposal s') :
    Executes abi s (.grantRole contact signature account :: proposal) s' := by
  simp only [Tx.execute, Call.bind_eq_ok, AccessControl.grantRole_eq_ok, Call.pure_eq_ok] at h
  obtain ⟨_, ⟨_, rfl⟩, rfl⟩ := h
  exact {
    contacts := hp.contacts
    before   := by simpa using hp.before
    after    := by simpa using hp.after
    others   := by simpa using hp.others
  }

theorem Executes.plan {target : Address} {permissions : List Permission}
    (h : Tx.execute abi sys s (.plan target permissions) = .ok s₁)
    (hp : Executes abi s₁ proposal s') : Executes abi s (.plan target permissions :: proposal) s' := by
  simp only [Tx.execute, OldEmergencyBrake.plan, Call.map_eq_ok, Call.bind_eq_ok,
    Call.require_eq_ok, Call.pure_eq_ok] at h
  obtain ⟨_, ⟨_, _, _, hb, _, _, rfl⟩, rfl⟩ := h
  have hn : ∀ t p, .plan t p ∈ proposal → abi.hash t p ≠ abi.hash target permissions := by
    intro t p hm he
    simpa [setPlan, he] using hp.before t p hm
  refine ⟨hp.contacts, fun t p hm => ?_, fun t p hm => ?_, fun h ho => ?_⟩
  case refine_1 =>
    cases hm
    case head    => exact hb
    case tail hm => simpa [setPlan, hn t p hm] using hp.before t p hm
  case refine_2 =>
    cases hm
    case head    => rw [hp.others _ fun t p hm => (hn t p hm).symm]; simp [setPlan]
    case tail hm => exact hp.after t p hm
  case refine_3 =>
    rw [hp.others h fun t p hm => ho t p (.tail _ hm)]
    simp [setPlan, ho target permissions (.head _)]

theorem Proposal.execute_eq_ok (h : Proposal.execute abi sys s proposal = .ok s') :
    Executes abi s proposal s' := by
  induction proposal generalizing s
  case nil => cases h; exact ⟨rfl, by simp, by simp, by simp⟩
  case cons tx proposal hi =>
    simp only [Proposal.execute, List.foldlM_cons, Call.bind_eq_ok] at h
    obtain ⟨s₁, h₁, h⟩ := h
    cases tx
    case grantRole => exact .grantRole h₁ (hi h)
    case plan      => exact .plan h₁ (hi h)

-- A plan for the role is made, and it is ready when the role has been granted.
def PlansReady (this : Address) (contacts : Address → AccessControl) (proposal : Proposal)
    (r : Role) : Prop :=
  ∃ permissions, .plan r.account permissions ∈ proposal ∧ r ∈ roles r.account permissions ∧
    ∃ contacts', forEach permissions (revoke this r.account) contacts = .ok contacts'

-- The plans which are ready after a proposal were ready before, or they have just been made.
theorem Executes.ready_iff (ha : abi.Decodes) (h : Executes abi s proposal s') :
    (∃ hash, Plan.Ready abi this contacts r (s'.plans hash)) ↔
    (∃ hash, Plan.Ready abi this contacts r (s.plans hash)) ∨ PlansReady this contacts proposal r := by
  constructor
  case mp =>
    intro ⟨hash, hr⟩
    by_cases hm : ∃ target permissions, .plan target permissions ∈ proposal ∧
      hash = abi.hash target permissions
    case pos =>
      obtain ⟨target, permissions, hm, rfl⟩ := hm
      rw [h.after _ _ hm] at hr
      obtain ⟨-, rfl, permissions', contacts', hd, hl, hf⟩ := hr
      cases (ha permissions).symm.trans hd
      exact .inr ⟨permissions, hm, hl, contacts', hf⟩
    case neg =>
      rw [h.others hash fun t p hp he => hm ⟨t, p, hp, he⟩] at hr
      exact .inl ⟨hash, hr⟩
  case mpr =>
    rintro (⟨hash, hr⟩ | ⟨permissions, hm, hl, contacts', hf⟩)
    case inl =>
      have hn := h.others hash fun t p hp he => by simpa [← he, hr.state] using h.before t p hp
      exact ⟨hash, hn ▸ hr⟩
    case inr =>
      refine ⟨abi.hash r.account permissions, ?_⟩
      rw [h.after _ _ hm]
      exact ⟨rfl, rfl, permissions, contacts', ha permissions, hl, hf⟩

theorem roles_singleton {target contact : Address} {signature : Bytes4} :
    roles target [⟨contact, [signature]⟩] = [⟨contact, signature, target⟩] :=
  rfl

-- The brake is an admin of the role.
def Revocable (this : Address) (contacts : Address → AccessControl) (r : Role) : Prop :=
  (contacts r.contact).hasRole ((contacts r.contact).getRoleAdmin r.signature) this = true

theorem revoke_isOk_iff : (∃ contacts', forEach [⟨r.contact, [r.signature]⟩]
    (revoke this r.account) contacts = .ok contacts') ↔
    r ∈ granted contacts ∧ Revocable this contacts r := by
  simp [forEach, revoke, Revocable, granted, Call.bind_eq_ok, Call.map_eq_ok, Call.require_eq_ok,
    AccessControl.revokeRole_eq_ok]

-- What is built for one role.
def single (abi : Abi Bytes) (s : State Bytes) (r : Role) : Proposal :=
  if ¬(s.contacts r.contact).hasRole r.signature r.account then
    .grantRole r.contact r.signature r.account ::
      if (s.plans (abi.hash r.account [⟨r.contact, [r.signature]⟩])).state = .UNPLANNED then
        [.plan r.account [⟨r.contact, [r.signature]⟩]]
      else
        []
  else
    []

theorem orchestrate_eq_ok {contact : Address} {signature : Bytes4}
    (h : orchestrate abi sys s contact signature = .ok proposal) :
    proposal = single abi s ⟨contact, signature, sys.witch⟩ := by
  simp only [orchestrate, Call.bind_eq_ok, Call.pure_eq_ok] at h
  obtain ⟨_, _, h⟩ := h
  exact h.symm

theorem orchestrateAuctionAssets_eq_ok {baseIds ilkIds seriesIds : List Bytes6}
    (h : orchestrateAuctionAssets abi sys s baseIds ilkIds seriesIds = .ok proposal) :
    proposal =
      (required sys (.auctionAssets baseIds ilkIds seriesIds)).flatMap (single abi s) := by
  simp only [orchestrateAuctionAssets, Call.bind_eq_ok, Call.pure_eq_ok] at h
  obtain ⟨bases, hb, series, hs, ilks, hi, rfl⟩ := h
  rw [Call.mapM_eq_ok (fun _ _ => orchestrate_eq_ok) hb,
    Call.mapM_eq_ok (fun _ _ => orchestrate_eq_ok) hs,
    Call.mapM_eq_ok (fun _ _ => orchestrate_eq_ok) hi]
  simp only [required, List.flatMap, List.map_append, List.map_map]
  rfl

theorem grants_flatMap {l : List Role} : Proposal.grants (l.flatMap (single abi s)) =
    l.filter fun r => ¬(s.contacts r.contact).hasRole r.signature r.account := by
  induction l
  case nil => rfl
  case cons r l hi =>
    simp only [Proposal.grants, List.flatMap_cons, List.filterMap_append] at hi ⊢
    rw [hi, List.filter_cons]
    unfold single
    split <;> split <;> simp_all [Tx.grants]

theorem mem_flatMap_single {l : List Role} {target : Address} {permissions : List Permission} :
    .plan target permissions ∈ l.flatMap (single abi s) ↔
    ∃ r ∈ l, (s.contacts r.contact).hasRole r.signature r.account = false ∧
      (s.plans (abi.hash r.account [⟨r.contact, [r.signature]⟩])).state = .UNPLANNED ∧
      target = r.account ∧ permissions = [⟨r.contact, [r.signature]⟩] := by
  simp only [List.mem_flatMap, single]
  refine exists_congr fun r => and_congr_right fun _ => ?_
  split
  case isTrue h  => split <;> simp_all
  case isFalse h => simp_all

theorem grants_eq (h : build abi sys s i = .ok proposal) : proposal.grants = missing sys s i := by
  cases i
  case auctionAssets => rw [orchestrateAuctionAssets_eq_ok h, grants_flatMap]; rfl
  case contangoLadle => cases h; rfl

-- The proposal makes a plan for the role.
def Plans (abi : Abi Bytes) (s : State Bytes) (r : Role) : Input → Prop
  | .auctionAssets .. =>
    (s.plans (abi.hash r.account [⟨r.contact, [r.signature]⟩])).state = .UNPLANNED
  | .contangoLadle contangoAddress contangoLadle => contangoAddress = contangoLadle

theorem plansReady_auctionAssets_iff {baseIds ilkIds seriesIds : List Bytes6}
    (h : orchestrateAuctionAssets abi sys s baseIds ilkIds seriesIds = .ok proposal)
    (hr : r ∈ missing sys s (.auctionAssets baseIds ilkIds seriesIds)) :
    PlansReady this contacts proposal r ↔
    (s.plans (abi.hash r.account [⟨r.contact, [r.signature]⟩])).state = .UNPLANNED ∧
    r ∈ granted contacts ∧ Revocable this contacts r := by
  simp only [missing, List.mem_filter] at hr
  rw [orchestrateAuctionAssets_eq_ok h]
  constructor
  case mp =>
    intro hf
    obtain ⟨permissions, hp, hl, hf⟩ := hf
    obtain ⟨r', -, -, hu, ht, rfl⟩ := mem_flatMap_single.mp hp
    rw [roles_singleton, List.mem_singleton] at hl
    have he : r = r' := hl.trans (by rw [ht])
    subst he
    exact ⟨hu, revoke_isOk_iff.mp hf⟩
  case mpr =>
    intro hf
    refine ⟨[⟨r.contact, [r.signature]⟩], ?_, by simp [roles_singleton],
      revoke_isOk_iff.mpr hf.right⟩
    exact mem_flatMap_single.mpr ⟨r, hr.left, by simpa using hr.right, hf.left, rfl, rfl⟩

theorem plansReady_contangoLadle_iff {contangoAddress contangoLadle : Address}
    (hr : r = ⟨contangoLadle, selector.deterministicBuild, contangoAddress⟩) :
    PlansReady this contacts (orchestrateContangoLadle contangoAddress contangoLadle) r ↔
    contangoAddress = contangoLadle ∧ r ∈ granted contacts ∧ Revocable this contacts r := by
  subst hr
  constructor
  case mp =>
    intro hf
    obtain ⟨permissions, hp, hl, hf⟩ := hf
    simp only [orchestrateContangoLadle, List.mem_cons, reduceCtorEq, Tx.plan.injEq,
      List.not_mem_nil, or_false, false_or] at hp
    obtain ⟨ht, rfl⟩ := hp
    exact ⟨ht, revoke_isOk_iff.mp hf⟩
  case mpr =>
    rintro ⟨rfl, hf⟩
    exact ⟨[⟨contangoAddress, [selector.deterministicBuild]⟩], .tail _ (.head _),
      by simp [roles_singleton], revoke_isOk_iff.mpr hf⟩

theorem plansReady_iff (h : build abi sys s i = .ok proposal) (hr : r ∈ missing sys s i) :
    PlansReady this contacts proposal r ↔
    Plans abi s r i ∧ r ∈ granted contacts ∧ Revocable this contacts r := by
  cases i
  case auctionAssets => exact plansReady_auctionAssets_iff h hr
  case contangoLadle =>
    cases h
    exact plansReady_contangoLadle_iff (List.mem_singleton.mp hr)

-- Every role which is granted can be taken away in an emergency, if a plan which does this is there
-- already, or if one is made and the cloak has the right to carry it out.
def Isolable (abi : Abi Bytes) (sys : Protocol) (s : State Bytes) (i : Input) : Prop :=
  let contacts := withRoles s.contacts (missing sys s i)
  ∀ r ∈ missing sys s i,
    (∃ hash, Plan.Ready abi sys.cloak contacts r (s.plans hash)) ∨
    (Plans abi s r i ∧ Revocable sys.cloak contacts r)

theorem isolates_iff_of_missing (ha : abi.Decodes)
    (hx : (s.contacts sys.cloak).hasRole selector.execute executor = true)
    (hb : build abi sys s i = .ok proposal) (he : Proposal.execute abi sys s proposal = .ok s')
    (hr : r ∈ missing sys s i) : Isolates abi sys.cloak executor s' r ↔
    (∃ hash, Plan.Ready abi sys.cloak (withRoles s.contacts (missing sys s i)) r (s.plans hash)) ∨
    (Plans abi s r i ∧ Revocable sys.cloak (withRoles s.contacts (missing sys s i)) r) := by
  have h := Proposal.execute_eq_ok he
  have hc : s'.contacts = withRoles s.contacts (missing sys s i) := grants_eq hb ▸ h.contacts
  have hg : granted s'.contacts = granted s.contacts ∪ { r | r ∈ missing sys s i } :=
    hc ▸ granted_withRoles
  have hx' : ⟨sys.cloak, selector.execute, executor⟩ ∈ granted s'.contacts := hg ▸ .inl hx
  have hr' : r ∈ granted s'.contacts := hg ▸ .inr hr
  have hi : Isolates abi sys.cloak executor s' r ↔
      ∃ hash, Plan.Ready abi sys.cloak s'.contacts r (s'.plans hash) :=
    ⟨Isolates.ready, fun ⟨_, h⟩ => h.isolates hx'⟩
  rw [hi, h.ready_iff ha, plansReady_iff hb hr, hc]
  simp only [hc ▸ hr', true_and]

theorem not_isolates (ha : abi.Decodes) (hb : build abi sys s i = .ok proposal)
    (he : Proposal.execute abi sys s proposal = .ok s') (hr : r ∈ proposal.grants)
    (hs : ∀ hash, (s.plans hash).state ≠ .PLANNED) (hp : ¬Plans abi s r i) :
    ¬Isolates abi this executor s' r := by
  intro h
  have hr' := (Proposal.execute_eq_ok he).ready_iff ha |>.mp h.ready
  rw [plansReady_iff hb (grants_eq hb ▸ hr)] at hr'
  cases hr'
  case inl hr' => have ⟨hash, hr'⟩ := hr'; exact hs hash hr'.state
  case inr hr' => exact hp hr'.left

theorem granted_isolates_iff (ha : abi.Decodes)
    (hx : (s.contacts sys.cloak).hasRole selector.execute executor = true)
    (hb : build abi sys s i = .ok proposal) (he : Proposal.execute abi sys s proposal = .ok s') :
    (∀ r ∈ proposal.grants, Isolates abi sys.cloak executor s' r) ↔ Isolable abi sys s i := by
  rw [grants_eq hb]
  exact forall₂_congr fun r hr => isolates_iff_of_missing ha hx hb he hr

namespace Rehearsal

def joinHash : Bytes32 := 0xb8ff84ac3a1698e07cd59c62c1d76ac2e0504e2d9a7aab12129dd22ba4db9782
def ladleHash : Bytes32 := 0xf5a23f969502f72bb3631b435d760a2a6dca050dfce7aa18c2eae3c9218cba34

-- The hashes of the plan for the Witch on the Join, and of the plan for the Contango Ladle.
def encoding : Abi (List Permission) where
  empty       := []
  encode      := id
  decode      := .ok
  hash a p    :=
    if a = 5 ∧ p = [⟨9, [selector.join]⟩] then
      joinHash
    else if a = 9 ∧ p = [⟨9, [selector.deterministicBuild]⟩] then
      ladleHash
    else
      0

def protocol : Protocol where
  timelock   := 8
  cloak      := 2
  witch      := 5
  joins _    := 9
  fyTokens _ := 9
  deployed _ := true

-- The contact 9 has given ROOT to the cloak, whose planner is the timelock.
def created : State (List Permission) :=
  init encoding 2 8 8 7 fun a =>
    if a = 9 then (AccessControl.init 8)._grantRole AccessControl.ROOT 2 else .init 8

-- The Witch has been isolated from the Join by an emergency.
def isolated : State (List Permission) :=
  setPlan created joinHash ⟨.EXECUTED, 5, [⟨9, [selector.join]⟩]⟩

def run (s : State (List Permission)) (i : Input) : Call (Proposal × State (List Permission)) := do
  let proposal ← build encoding protocol s i
  let s' ← proposal.execute encoding protocol s
  return (proposal, s')

theorem run_eq_ok {s : State (List Permission)} {i : Input} {l : List Role}
    (h : (fun r => r.1.grants) <$> run s i = .ok l) :
    ∃ proposal s', build encoding protocol s i = .ok proposal ∧
      Proposal.execute encoding protocol s proposal = .ok s' ∧ proposal.grants = l := by
  have ⟨⟨proposal, s'⟩, hr, hg⟩ := Call.map_eq_ok.mp h
  simp only [run, Call.bind_eq_ok, Call.pure_eq_ok, Prod.mk.injEq] at hr
  obtain ⟨_, hb, _, he, rfl, rfl⟩ := hr
  exact ⟨_, _, hb, he, hg⟩

theorem created_ne_planned (hash : Bytes32) : (created.plans hash).state ≠ .PLANNED := by
  simp [created, init, deleted]

theorem isolated_ne_planned (hash : Bytes32) : (isolated.plans hash).state ≠ .PLANNED := by
  simp only [isolated, setPlan, Function.update_apply]
  split
  case isTrue  => simp
  case isFalse => exact created_ne_planned hash

end Rehearsal

open Rehearsal in
theorem granted_isolates_iff_base : ∃ proposal s',
    build encoding protocol created (.auctionAssets [1] [] []) = .ok proposal ∧
    Proposal.execute encoding protocol created proposal = .ok s' ∧
    proposal.grants = [⟨9, selector.join, 5⟩] ∧
    ∀ r ∈ proposal.grants, Isolates encoding 2 7 s' r := by
  obtain ⟨_, _, hb, he, hg⟩ := run_eq_ok (s := created) (i := .auctionAssets [1] [] [])
    (l := [⟨9, selector.join, 5⟩]) (by decide +kernel)
  have hx : (created.contacts protocol.cloak).hasRole selector.execute 7 = true := by
    decide +kernel
  refine ⟨_, _, hb, he, hg, (granted_isolates_iff (fun _ => rfl) hx hb he).mpr fun r hr => ?_⟩
  rw [← grants_eq hb, hg, List.mem_singleton] at hr
  subst hr
  exact .inr ⟨rfl, by unfold Revocable; decide +kernel⟩

open Rehearsal in
theorem granted_not_isolated :
    (∃ proposal s', build encoding protocol isolated (.auctionAssets [1] [] []) = .ok proposal ∧
      Proposal.execute encoding protocol isolated proposal = .ok s' ∧
      ⟨9, selector.join, 5⟩ ∈ proposal.grants ∧
      ∀ executor, ¬Isolates encoding 2 executor s' ⟨9, selector.join, 5⟩) ∧
    (∃ proposal s', build encoding protocol created (.contangoLadle 4 9) = .ok proposal ∧
      Proposal.execute encoding protocol created proposal = .ok s' ∧
      ⟨9, selector.deterministicBuild, 4⟩ ∈ proposal.grants ∧
      ∀ executor, ¬Isolates encoding 2 executor s' ⟨9, selector.deterministicBuild, 4⟩) := by
  constructor
  case left =>
    obtain ⟨_, _, hb, he, hg⟩ := run_eq_ok (s := isolated) (i := .auctionAssets [1] [] [])
      (l := [⟨9, selector.join, 5⟩]) (by decide +kernel)
    have hr := hg ▸ List.mem_singleton_self _
    exact ⟨_, _, hb, he, hr, fun _ => not_isolates (fun _ => rfl) hb he hr isolated_ne_planned
      (by unfold Plans; decide +kernel)⟩
  case right =>
    obtain ⟨_, _, hb, he, hg⟩ := run_eq_ok (s := created) (i := .contangoLadle 4 9)
      (l := [⟨9, selector.deterministicBuild, 4⟩]) (by decide +kernel)
    have hr := hg ▸ List.mem_singleton_self _
    exact ⟨_, _, hb, he, hr, fun _ => not_isolates (fun _ => rfl) hb he hr created_ne_planned
      (by unfold Plans; decide +kernel)⟩

end OldEmergencyBrake.Orchestration
