import YieldModel.Lib.Agreement
import YieldModel.Fragments.Basic

open Execution Agreement

namespace Fragments

variable {κ ω : Type} {sys : System} {ext : Externals κ ω} {c c' c₁ : Chain κ ω} {tx : Tx}
  {proposal : Proposal} {user host : Address} {roles : List Bytes4} {e : Address × Permission}

-- Both the role tables and the plans of the cloak are sets of permissions of users.
abbrev Entry := Address × Permission

def entries (user host : Address) (roles : List Bytes4) : Set Entry :=
  { e | e.1 = user ∧ e.2 ∈ roles.map (Permission.mk host) }

def Chain.granted (c : Chain κ ω) : Set Entry :=
  { e | ∃ roles, (c.contracts e.2.host).roles = some roles ∧ roles.hasRole e.2.signature e.1 }

def Chain.listed (ext : Externals κ ω) (c : Chain κ ω) : Set Entry :=
  { e | ext.cloak.lists c.cloak e.1 e.2 }

-- What the Ladle and the Witch may do on Joins and fyTokens.
def Chain.scope (sys : System) (c : Chain κ ω) : Set Entry :=
  { e | (e.1 = sys.ladle ∨ e.1 = sys.witch) ∧ (c.contracts e.2.host).roles.isSome ∧
    e.2.signature ∈ [selector.join, selector.exit, selector.mint, selector.burn] }

def Chain.InStep (sys : System) (ext : Externals κ ω) (c : Chain κ ω) : Prop :=
  AgreeOn (c.scope sys) (c.listed ext) c.granted

def Tx.onRoles (t : Set Entry) (tx : Tx) : Set Entry :=
  match tx.data with
  | .grantRole role account    => t ∪ entries account tx.target [role]
  | .grantRoles roles account  => t ∪ entries account tx.target roles
  | .revokeRoles roles account => t \ entries account tx.target roles
  | _                          => t

def Tx.onPlans (t : Set Entry) (tx : Tx) : Set Entry :=
  match tx.data with
  | .add user permissions    => t ∪ { e | e.1 = user ∧ e.2 ∈ permissions }
  | .remove user permissions => t \ { e | e.1 = user ∧ e.2 ∈ permissions }
  | _                        => t

-- What a transaction does to the permissions. Hosts stay hosts.
structure Chain.Executes (ext : Externals κ ω) (c : Chain κ ω) (txs : Proposal) (c' : Chain κ ω) :
    Prop where
  granted : c'.granted = txs.foldl Tx.onRoles c.granted
  listed  : c'.listed ext = txs.foldl Tx.onPlans (c.listed ext)
  hosts   : ∀ host, (c'.contracts host).roles.isSome = (c.contracts host).roles.isSome

theorem mem_entries : e ∈ entries user host roles ↔
    e.1 = user ∧ e.2.host = host ∧ e.2.signature ∈ roles := by
  obtain ⟨u, h, g⟩ := e
  simp only [entries, Set.mem_ofPred_eq, List.mem_map, Permission.mk.injEq]
  refine and_congr_right fun _ => ⟨?_, fun ⟨he, hg⟩ => ⟨g, hg, he.symm, rfl⟩⟩
  rintro ⟨g', hg, rfl, rfl⟩
  exact ⟨rfl, hg⟩

theorem roles_setRoles {k : Contract} {r r' : AccessControl} (h : k.roles = some r') :
    (k.setRoles r).roles = some r := by
  cases k
  case join     => rfl
  case fyToken  => rfl
  case other    => cases h

theorem onRoles_eq_ok {f : AccessControl → Call AccessControl}
    (h : c.onRoles host f = .ok c') :
    ∃ r r', (c.contracts host).roles = some r ∧ f r = .ok r' ∧
    (c'.contracts host).roles = some r' ∧ (∀ h ≠ host, c'.contracts h = c.contracts h) ∧
    c'.cloak = c.cloak := by
  unfold Chain.onRoles at h
  split at h
  case h_1 => cases h
  case h_2 r hr =>
    simp only [Call.bind_eq_ok, Call.pure_eq_ok] at h
    obtain ⟨r', hf, rfl⟩ := h
    exact ⟨r, r', hr, hf, by simp [roles_setRoles hr], fun h hn => by simp [hn], rfl⟩

theorem onJoin_eq_ok {f : Join.State → Call (Join.State × Uint 128)}
    (h : c.onJoin host f = .ok c') :
    ∃ j s a, c.contracts host = .join j ∧ f ⟨j, c.tokens⟩ = .ok (s, a) ∧
    c' = { c with
      contracts := Function.update c.contracts host (.join s.join), tokens := s.tokens } := by
  unfold Chain.onJoin at h
  split at h
  case h_2 => cases h
  case h_1 j hj =>
    simp only [Call.bind_eq_ok, Call.pure_eq_ok, Prod.exists] at h
    obtain ⟨s, a, hf, rfl⟩ := h
    exact ⟨j, s, a, hj, hf, rfl⟩

theorem mem_granted {r : AccessControl} (hr : (c.contracts e.2.host).roles = some r) :
    e ∈ c.granted ↔ r.hasRole e.2.signature e.1 := by
  simp [Chain.granted, hr]

theorem granted_congr (h : ∀ host, (c'.contracts host).roles = (c.contracts host).roles) :
    c'.granted = c.granted := by
  simp only [Chain.granted, h]

theorem listed_congr (h : c'.cloak = c.cloak) : c'.listed ext = c.listed ext := by
  simp only [Chain.listed, h]

section Roles

variable {r r' : AccessControl} (hr : (c.contracts host).roles = some r)
  (hr' : (c'.contracts host).roles = some r')
  (ho : ∀ h ≠ host, c'.contracts h = c.contracts h)

include hr hr' ho

theorem granted_union
    (hu : ∀ g a, r'.hasRole g a ↔ (g ∈ roles ∧ a = user) ∨ r.hasRole g a) :
    c'.granted = c.granted ∪ entries user host roles := by
  ext e
  rw [Set.mem_union, mem_entries]
  by_cases he : e.2.host = host
  case pos =>
    rw [mem_granted (he ▸ hr'), mem_granted (he ▸ hr), hu]
    tauto
  case neg => simp [Chain.granted, ho _ he, he]

theorem granted_diff
    (hu : ∀ g a, r'.hasRole g a ↔ ¬(g ∈ roles ∧ a = user) ∧ r.hasRole g a) :
    c'.granted = c.granted \ entries user host roles := by
  ext e
  rw [Set.mem_sdiff, mem_entries]
  by_cases he : e.2.host = host
  case pos =>
    rw [mem_granted (he ▸ hr'), mem_granted (he ▸ hr), hu]
    tauto
  case neg => simp [Chain.granted, ho _ he, he]

theorem hosts_of_roles (h : Address) :
    (c'.contracts h).roles.isSome = (c.contracts h).roles.isSome := by
  by_cases he : h = host
  case pos => rw [he, hr, hr']; rfl
  case neg => rw [ho h he]

end Roles

theorem onJoin_roles {f : Join.State → Call (Join.State × Uint 128)}
    (hf : ∀ s s' a, f s = .ok (s', a) → s'.join.roles = s.join.roles)
    (h : c.onJoin host f = .ok c') (h' : Address) :
    (c'.contracts h').roles = (c.contracts h').roles := by
  obtain ⟨j, s, a, hj, hs, rfl⟩ := onJoin_eq_ok h
  by_cases he : h' = host
  case pos =>
    have hs : s.join.roles = j.roles := hf _ _ _ hs
    simp [he, hj, Contract.roles, hs]
  case neg => simp [he]

theorem execute_eq_ok (hl : ext.cloak.Lawful) (h : execute sys ext c tx = .ok c') :
    c.Executes ext [tx] c' := by
  obtain ⟨target, data⟩ := tx
  cases data <;> simp only [execute, Call.bind_eq_ok, Call.pure_eq_ok] at h
  case grantRole role account =>
    obtain ⟨r, r', hr, hf, hr', ho, hc⟩ := onRoles_eq_ok h
    have hu := (AccessControl.grantRole_eq_ok.mp hf).right
    refine ⟨granted_union hr hr' ho fun g a => ?_, listed_congr hc, hosts_of_roles hr hr' ho⟩
    rw [hu, AccessControl.hasRole_grantRole, List.mem_singleton]
  case grantRoles roles account =>
    obtain ⟨r, r', hr, hf, hr', ho, hc⟩ := onRoles_eq_ok h
    exact ⟨granted_union hr hr' ho fun _ _ => AccessControl.hasRole_grantRoles hf,
      listed_congr hc, hosts_of_roles hr hr' ho⟩
  case revokeRoles roles account =>
    obtain ⟨r, r', hr, hf, hr', ho, hc⟩ := onRoles_eq_ok h
    exact ⟨granted_diff hr hr' ho fun _ _ => AccessControl.hasRole_revokeRoles hf,
      listed_congr hc, hosts_of_roles hr hr' ho⟩
  case exit user amount =>
    have hk := onJoin_roles (fun s s' a hx => ?_) h
    · obtain ⟨_, _, _, _, _, rfl⟩ := onJoin_eq_ok h
      exact ⟨granted_congr hk, rfl, fun h => by rw [hk]⟩
    · simp only [Join.exit, Call.bind_eq_ok] at hx
      obtain ⟨_, -, hx⟩ := hx
      exact (Join.exit_eq_ok hx).roles
  case join user amount =>
    have hk := onJoin_roles (fun s s' a hx => ?_) h
    · obtain ⟨_, _, _, _, _, rfl⟩ := onJoin_eq_ok h
      exact ⟨granted_congr hk, rfl, fun h => by rw [hk]⟩
    · simp only [Join.join, Call.bind_eq_ok] at hx
      obtain ⟨_, -, hx⟩ := hx
      exact (Join.join_eq_ok hx).roles
  case add user permissions =>
    obtain ⟨_, ha, rfl⟩ := h
    exact ⟨rfl, Set.ext fun e => hl.add _ _ _ _ _ ha e.1 e.2, fun _ => rfl⟩
  case remove user permissions =>
    obtain ⟨_, hr, rfl⟩ := h
    exact ⟨rfl, Set.ext fun e => hl.remove _ _ _ _ _ hr e.1 e.2, fun _ => rfl⟩
  case addJoin =>
    obtain ⟨_, -, rfl⟩ := h
    exact ⟨rfl, rfl, fun _ => rfl⟩
  case setLineAndLimit =>
    obtain ⟨_, -, rfl⟩ := h
    exact ⟨rfl, rfl, fun _ => rfl⟩

theorem executeAll_eq_ok (hl : ext.cloak.Lawful) (h : executeAll sys ext c proposal = .ok c') :
    c.Executes ext proposal c' := by
  induction proposal generalizing c
  case nil => cases h; exact ⟨rfl, rfl, fun _ => rfl⟩
  case cons tx txs hi =>
    simp only [executeAll, List.foldlM_cons, Call.bind_eq_ok] at h
    obtain ⟨c₁, h₁, h⟩ := h
    have h₁ := execute_eq_ok hl h₁
    have h₂ := hi h
    exact {
      granted := by rw [h₂.granted, h₁.granted]; rfl
      listed  := by rw [h₂.listed, h₁.listed]; rfl
      hosts   := fun host => (h₂.hosts host).trans (h₁.hosts host)
    }

-- A drain leaves the Ladle only with the permissions which are not among those on old Joins.
theorem mem_drainJoin {oldJoin newJoin : Address} {amount : Uint 128} {s : Set Entry}
    (he : e.1 ≠ sys.timelock) : e ∈ (drainJoin sys oldJoin newJoin amount).foldl Tx.onRoles s ↔
    e ∈ s ∧ e ∉ entries sys.ladle oldJoin [selector.join, selector.exit] := by
  have hn : ∀ host roles, e ∉ entries sys.timelock host roles := fun _ _ h => he h.left
  simp [drainJoin, Tx.onRoles, hn]

theorem drainJoin_onPlans {oldJoin newJoin : Address} {amount : Uint 128} {s : Set Entry} :
    (drainJoin sys oldJoin newJoin amount).foldl Tx.onPlans s = s :=
  rfl

-- The amounts are those which the old Joins stored when the proposal was built.
def Chain.stored (c : Chain κ ω) (host : Address) : ℕ :=
  match c.contracts host with
  | .join j => j.storedBalance
  | _       => 0

theorem storedBalance_eq_ok {b : Uint 256} (h : c.storedBalance host = .ok b) :
    c.stored host = b := by
  simp only [Chain.storedBalance] at h
  cases hj : c.contracts host <;> simp only [hj, reduceCtorEq] at h
  case join => cases h; simp only [Chain.stored, hj]

theorem drainJoinsFragment_eq_ok {pairs : List (Address × Address)}
    (h : drainJoinsFragment sys c pairs = .ok proposal) :
    proposal = pairs.flatMap (fun p => drainJoin sys p.1 p.2 (Uint.truncate 128 (c.stored p.1))) ∧
    ∀ p ∈ pairs, c.stored p.1 < 2 ^ 128 := by
  unfold drainJoinsFragment at h
  rw [← List.nil_append (pairs.flatMap _)]
  generalize ([] : Proposal) = acc at h ⊢
  induction pairs generalizing acc
  case nil => cases h; simp
  case cons p pairs hi =>
    simp only [List.foldlM_cons, Call.bind_eq_ok, Uint.cast_eq_ok, Call.pure_eq_ok] at h
    obtain ⟨_, ⟨b, hb, a, ha, rfl⟩, h⟩ := h
    obtain ⟨he, hl⟩ := hi _ h
    have hs : c.stored p.1 = a := (storedBalance_eq_ok hb).trans ha.symm
    have ht : Uint.truncate 128 (c.stored p.1) = a := by
      rw [hs, Fin.ext_iff, Uint.truncate_val_of_lt a.isLt]
    refine ⟨by rw [he, List.flatMap_cons, ht, List.append_assoc], fun q hq => ?_⟩
    cases hq
    case head    => exact hs ▸ a.isLt
    case tail hq => exact hl q hq

theorem drainJoins_onPlans {pairs : List (Address × Address)}
    (h : drainJoinsFragment sys c pairs = .ok proposal) (s : Set Entry) :
    proposal.foldl Tx.onPlans s = s := by
  rw [(drainJoinsFragment_eq_ok h).left]
  clear h
  induction pairs
  case nil            => rfl
  case cons p ps hi => rw [List.flatMap_cons, List.foldl_append, drainJoin_onPlans, hi]

theorem mem_drainJoins {pairs : List (Address × Address)}
    (h : drainJoinsFragment sys c pairs = .ok proposal) {s : Set Entry}
    (he : e.1 ≠ sys.timelock) : e ∈ proposal.foldl Tx.onRoles s ↔
    e ∈ s ∧ ∀ p ∈ pairs, e ∉ entries sys.ladle p.1 [selector.join, selector.exit] := by
  rw [(drainJoinsFragment_eq_ok h).left]
  clear h
  induction pairs generalizing s
  case nil          => simp
  case cons p ps hi =>
    rw [List.flatMap_cons, List.foldl_append, hi, mem_drainJoin he, List.forall_mem_cons, and_assoc]

-- Nothing in the plans says that the Ladle has lost its roles, so it must not have had them.
def LeavesLadle (sys : System) (c : Chain κ ω) : Fragment → Prop
  | .drainJoins pairs => ∀ p ∈ pairs, ∀ role ∈ [selector.join, selector.exit],
    (sys.ladle, ⟨p.1, role⟩) ∉ c.granted
  | _ => True

theorem Chain.Executes.inStep_iff (h : c.Executes ext proposal c') : c'.InStep sys ext ↔
    AgreeOn (c.scope sys) (proposal.foldl Tx.onPlans (c.listed ext))
      (proposal.foldl Tx.onRoles c.granted) := by
  have hs : c'.scope sys = c.scope sys := by simp only [Chain.scope, h.hosts]
  rw [Chain.InStep, hs, h.granted, h.listed]

theorem ne_timelock_of_scope (h : e ∈ c.scope sys) : e.1 ≠ sys.timelock := by
  cases h.left
  case inl h => exact h ▸ sys.ladle_ne.symm
  case inr h => exact h ▸ sys.witch_ne.symm

-- The condition is exact for each drain.
theorem drainJoins_inStep_iff {pairs : List (Address × Address)}
    (hb : drainJoinsFragment sys c pairs = .ok proposal) (hx : c.Executes ext proposal c')
    (h : c.InStep sys ext) : c'.InStep sys ext ↔ LeavesLadle sys c (.drainJoins pairs) := by
  rw [hx.inStep_iff, drainJoins_onPlans hb]
  constructor
  case mp =>
    intro ha p hp role hr hg
    have hs : ((sys.ladle, ⟨p.1, role⟩) : Entry) ∈ c.scope sys := by
      obtain ⟨r, hr', _⟩ := hg
      refine ⟨.inl rfl, by simp [hr'], ?_⟩
      exact List.mem_of_mem_take (i := 2) hr
    have hn := (ha _ hs).mp ((h _ hs).mpr hg)
    rw [mem_drainJoins hb (ne_timelock_of_scope hs)] at hn
    exact hn.right p hp (mem_entries.mpr ⟨rfl, rfl, hr⟩)
  case mpr =>
    intro hl e he
    rw [mem_drainJoins hb (ne_timelock_of_scope he), h e he]
    refine ⟨fun hg => ⟨hg, fun p hp hm => ?_⟩, And.left⟩
    have ⟨hu, hh, hr⟩ := mem_entries.mp hm
    apply hl p hp e.2.signature hr
    rwa [← hu, ← hh]

-- The steps of an execution in which the proposals satisfy `P`. Others neither change roles nor the
-- plans.
inductive Step (sys : System) (ext : Externals κ ω) (P : Chain κ ω → Fragment → Prop) :
    Chain κ ω → Chain κ ω → Prop
  | proposal {c c' : Chain κ ω} {f : Fragment} {proposal : Proposal} :
    P c f → build sys ext c f = .ok proposal → executeAll sys ext c proposal = .ok c' →
    Step sys ext P c c'
  | others {c c' : Chain κ ω} :
    (∀ host, (c'.contracts host).roles = (c.contracts host).roles) → c'.cloak = c.cloak →
    Step sys ext P c c'

theorem build_inStep {f : Fragment} (hp : LeavesLadle sys c f)
    (hb : build sys ext c f = .ok proposal) (hx : c.Executes ext proposal c')
    (h : c.InStep sys ext) : c'.InStep sys ext := by
  cases f
  case drainJoins => exact (drainJoins_inStep_iff hb hx h).mpr hp
  all_goals rw [hx.inStep_iff]
  case addJoin =>
    cases hb
    exact h.union (entries _ _ [selector.join, selector.exit])
  case addFYToken =>
    cases hb
    exact h.union (entries _ _ [selector.mint, selector.burn])
  case removeFYToken =>
    cases hb
    exact h.diff (entries _ _ [selector.mint, selector.burn])
  case addBaseToWitch =>
    cases hb
    exact h.union (entries _ _ [selector.join])
  case addFYTokenToWitch =>
    cases hb
    exact h.union (entries _ _ [selector.burn])
  case removeJoin =>
    simp only [build, removeJoin, Call.bind_eq_ok, Call.pure_eq_ok] at hb
    obtain ⟨_, -, rfl⟩ := hb
    exact h.diff (entries _ _ [selector.join, selector.exit])
  case replaceJoin =>
    simp only [build, replaceJoin, removeJoin, Call.bind_eq_ok, Call.pure_eq_ok] at hb
    obtain ⟨_, ⟨_, -, rfl⟩, rfl⟩ := hb
    exact (h.diff (entries _ _ [selector.join, selector.exit])).union
      (entries _ _ [selector.join, selector.exit])
  case addIlkToWitch ilk join =>
    simp only [build, addIlkToWitch] at hb
    split at hb
    case h_1 => cases hb
    case h_2 =>
      simp only [Call.bind_eq_ok, Call.pure_eq_ok] at hb
      obtain ⟨held, -, rfl⟩ := hb
      -- The role is only granted if it is not held, and then it is planned as well.
      cases held
      case false => exact h.union (entries _ _ [selector.exit])
      case true  => exact h

theorem step_inStep (hl : ext.cloak.Lawful) :
    Preserves (Step sys ext (LeavesLadle sys)) (·.InStep sys ext) := by
  intro c c' stp h
  cases stp
  case proposal hp hb hx => exact build_inStep hp hb (executeAll_eq_ok hl hx) h
  case others hr hc =>
    have hx : c.Executes ext [] c' :=
      ⟨granted_congr hr, listed_congr hc, fun host => by rw [hr]⟩
    exact hx.inStep_iff.mpr h

-- The plans of the cloak for the Ladle and the Witch list what they may do on Joins and fyTokens,
-- unless a drain takes its roles from the Ladle.
theorem cloak_in_step (hl : ext.cloak.Lawful) (e : Steps (Step sys ext (LeavesLadle sys)) c c')
    (h : c.InStep sys ext) : c'.InStep sys ext :=
  (step_inStep hl).steps e h

theorem hasRole_eq_ok {role : Bytes4} {b : Bool} (h : c.hasRole host role user = .ok b) :
    (user, ⟨host, role⟩) ∈ c.granted ↔ b = true := by
  unfold Chain.hasRole at h
  split at h
  case h_1 r hr => cases h; exact mem_granted hr
  case h_2      => cases h

namespace Drained

def system : System :=
  ⟨1, 2, 3, 4, Fin.ne_of_val_ne (by decide), Fin.ne_of_val_ne (by decide)⟩

-- Plans are lists of permissions, which anyone may change.
def cloak : EmergencyBrake (Address → List Permission) where
  lists s user p             := p ∈ s user
  add s _ user permissions   := .ok (Function.update s user (s user ++ permissions))
  remove s _ user permissions :=
    .ok (Function.update s user ((s user).filter fun p => p ∉ permissions))

theorem lawful : cloak.Lawful where
  add s _ user permissions s' h u p := by
    cases h
    by_cases hu : u = user <;> simp [cloak, hu]
  remove s _ user permissions s' h u p := by
    cases h
    by_cases hu : u = user <;> simp [cloak, hu]

def externals : Externals (Address → List Permission) Unit where
  cloak      := cloak
  joins _ _  := 5
  effect _ _ := .ok ()

-- Join 5 stores 100 tokens, and Join 6 none. The timelock governs both.
def chain : Chain (Address → List Permission) Unit where
  contracts a :=
    if a = 5 then .join ⟨.init 1, 9, 100⟩ else if a = 6 then .join ⟨.init 1, 9, 0⟩ else .other
  tokens _    := ⟨((Ledger.empty 256 Address).mint 5 100).toOption.getD (.empty 256 Address),
    fun _ _ => 0⟩
  cloak _     := []
  rest        := ()

def propose (c : Chain (Address → List Permission) Unit) (f : Fragment) :
    Call (Chain (Address → List Permission) Unit) := do
  let proposal ← build system externals c f
  executeAll system externals c proposal

theorem propose_step {P : Chain (Address → List Permission) Unit → Fragment → Prop}
    {c c' : Chain (Address → List Permission) Unit} {f : Fragment} (h : propose c f = .ok c')
    (hp : P c f) : Step system externals P c c' := by
  obtain ⟨_, hb, hx⟩ := Call.bind_eq_ok.mp h
  exact .proposal hp hb hx

theorem chain_inStep : chain.InStep system externals := by
  intro e he
  have hg : e ∉ chain.granted := by
    intro ⟨r, hr, ha⟩
    have hr : r = .init 1 := by
      simp only [chain] at hr
      split at hr
      case isTrue => exact (Option.some.inj hr).symm
      case isFalse =>
        split at hr
        case isTrue  => exact (Option.some.inj hr).symm
        case isFalse => cases hr
    have hu : e.1 = 1 := by
      simp only [hr, AccessControl.init, AccessControl.hasRole_setRoleAdmin,
        AccessControl.hasRole_grantRole] at ha
      cases ha
      case inl ha => exact ha.right
      case inr ha => cases ha
    exact ne_timelock_of_scope he hu
  exact iff_of_false (by simp [Chain.listed, chain, externals, cloak]) hg

end Drained

-- The Join is removed before it is drained.
theorem cloak_in_step_removed : ∃ c₁ c₂ c₃, Drained.propose Drained.chain (.addJoin 0 5) = .ok c₁ ∧
    Drained.propose c₁ (.removeJoin 0) = .ok c₂ ∧
    Drained.propose c₂ (.drainJoins [(5, 6)]) = .ok c₃ ∧ c₃.InStep Drained.system Drained.externals := by
  have h : (do
      let c ← Drained.propose Drained.chain (.addJoin 0 5)
      let c ← Drained.propose c (.removeJoin 0)
      let join ← c.hasRole 5 selector.join 2
      let exit ← c.hasRole 5 selector.exit 2
      let _ ← Drained.propose c (.drainJoins [(5, 6)])
      return (join, exit)) = .ok (false, false) := by
    decide +kernel
  simp only [Call.bind_eq_ok, Call.pure_eq_ok, Prod.mk.injEq] at h
  obtain ⟨c₁, h₁, c₂, h₂, _, hj, _, he, c₃, h₃, rfl, rfl⟩ := h
  refine ⟨c₁, c₂, c₃, h₁, h₂, h₃, cloak_in_step Drained.lawful
    (.head (Drained.propose_step h₁ trivial) <| .head (Drained.propose_step h₂ trivial) <|
      .single (Drained.propose_step h₃ fun p hp role hr hg => ?_)) Drained.chain_inStep⟩
  rw [List.mem_singleton.mp hp] at hg
  simp only [List.mem_cons, List.not_mem_nil, or_false] at hr
  cases hr
  case inl hr => exact absurd ((hasRole_eq_ok hj).mp (hr ▸ hg)) Bool.false_ne_true
  case inr hr => exact absurd ((hasRole_eq_ok he).mp (hr ▸ hg)) Bool.false_ne_true

-- The Join is drained while the Ladle still uses it.
theorem cloak_not_in_step : ¬∀ (κ ω : Type) (sys : System) (ext : Externals κ ω)
    (c c' : Chain κ ω), ext.cloak.Lawful → Steps (Step sys ext fun _ _ => True) c c' →
    c.InStep sys ext → c'.InStep sys ext := by
  intro hn
  have h : (do
      let c ← Drained.propose Drained.chain (.addJoin 0 5)
      let join ← c.hasRole 5 selector.join 2
      let _ ← Drained.propose c (.drainJoins [(5, 6)])
      return join) = .ok true := by
    decide +kernel
  simp only [Call.bind_eq_ok, Call.pure_eq_ok] at h
  obtain ⟨c₁, h₁, _, hj, c₂, h₂, rfl⟩ := h
  have e₁ := Drained.propose_step (P := fun _ _ => True) h₁ trivial
  have e₂ := Drained.propose_step (P := fun _ _ => True) h₂ trivial
  have hs₁ := hn _ _ _ _ _ _ Drained.lawful (.single e₁) Drained.chain_inStep
  have hs₂ := hn _ _ _ _ _ _ Drained.lawful (.single e₂) hs₁
  obtain ⟨_, hb, hx⟩ := Call.bind_eq_ok.mp h₂
  have hl := (drainJoins_inStep_iff hb (executeAll_eq_ok Drained.lawful hx) hs₁).mp hs₂
  exact hl (5, 6) List.mem_cons_self selector.join List.mem_cons_self ((hasRole_eq_ok hj).mpr rfl)

end Fragments
