import YieldModel.Permissions.Fragments
import YieldModel.Permissions.Tables

open AccessControl (ROOT)

namespace Permissions

variable {κ : Type} {b : Fragments.EmergencyBrake κ} {others : Tx → Call Unit}
  {timelock u : Address} {c c' : Chain κ} {tx : Tx} {p p₁ p₂ : Proposal} {q : Fragments.Permission}

-- The permissions which a proposal adds to plans.

def Tx.adds (tx : Tx) : List (Address × Fragments.Permission) :=
  match tx.data with
  | .add user permissions => permissions.map (user, ·)
  | _                     => []

def Proposal.adds (p : Proposal) : List (Address × Fragments.Permission) :=
  p.flatMap Tx.adds

def Tx.Removes (tx : Tx) : Prop :=
  ∃ user permissions, tx.data = .remove user permissions

theorem Tx.onCloak_of_execute (h : Tx.execute b others timelock c tx = .ok c') :
    tx.onCloak b timelock c.cloak = .ok c'.cloak := by
  unfold Tx.execute at h
  split at h <;> simp only [Call.bind_eq_ok] at h
  case h_1 => obtain ⟨_, -, _, -, _, hc, h⟩ := h; cases h; exact hc
  case h_2 => obtain ⟨_, -, _, hc, h⟩ := h; cases h; exact hc

theorem Tx.listed_iff (hb : b.Lawful) (h : Tx.execute b others timelock c tx = .ok c')
    (hr : ¬tx.Removes) : b.lists c'.cloak u q ↔ b.lists c.cloak u q ∨ (u, q) ∈ tx.adds := by
  replace h := onCloak_of_execute h
  obtain ⟨target, data⟩ := tx
  cases data
  case add user permissions =>
    rw [hb.add _ _ _ _ _ h]
    refine or_congr_right ?_
    simp [adds, eq_comm, and_comm]
  case remove user permissions => exact absurd ⟨user, permissions, rfl⟩ hr
  all_goals
    have h : c.cloak = c'.cloak := Except.ok.inj h
    simp [adds, h]

theorem Proposal.listed_iff (hb : b.Lawful) (h : Proposal.execute b others timelock c p = .ok c')
    (hr : ∀ tx ∈ p, ¬tx.Removes) :
    b.lists c'.cloak u q ↔ b.lists c.cloak u q ∨ (u, q) ∈ p.adds := by
  induction p generalizing c
  case nil => cases h; simp [adds]
  case cons tx p hi =>
    simp only [Proposal.execute, List.foldlM_cons, Call.bind_eq_ok] at h
    obtain ⟨c₁, ht, hp⟩ := h
    obtain ⟨hrt, hrp⟩ := List.forall_mem_cons.mp hr
    rw [hi hp hrp, Tx.listed_iff hb ht hrt, adds, adds, List.flatMap_cons, List.mem_append, or_assoc]

@[simp]
theorem adds_append : Proposal.adds (p₁ ++ p₂) = Proposal.adds p₁ ++ Proposal.adds p₂ :=
  List.flatMap_append

@[simp]
theorem adds_cons : Proposal.adds (tx :: p) = tx.adds ++ Proposal.adds p :=
  rfl

theorem adds_flatMap {α : Type} {as : List α} {g : α → Proposal} :
    Proposal.adds (as.flatMap g) = as.flatMap fun a => (g a).adds :=
  List.flatMap_assoc

theorem adds_map {α : Type} {as : List α} {g : α → Tx} :
    Proposal.adds (as.map g) = as.flatMap fun a => (g a).adds := by
  simp [Proposal.adds, List.flatMap_map]

variable {gov : Governance} {hosts : Hosts} {cloakV1 assert cauldron ladle witch : Address}
  {fyTokens joins users : List Address}

-- What is looked at when the Witch and the Ladle are added to a cloak.

def InWitchScope (cauldron : Address) (fyTokens joins : List Address) (q : Fragments.Permission) :
    Prop :=
  q.host = cauldron ∧ q.signature ∈ [selector.give, selector.slurp] ∨
  q.host ∈ fyTokens ∧ q.signature = selector.burn ∨
  q.host ∈ joins ∧ q.signature ∈ [selector.join, selector.exit]

def InLadleScope (cauldron : Address) (fyTokens joins : List Address) (q : Fragments.Permission) :
    Prop :=
  q.host = cauldron ∧ q.signature ∈ [selector.build, selector.destroy, selector.tweak,
    selector.pour, selector.stir, selector.roll] ∨
  q.host ∈ fyTokens ∧ q.signature ∈ [selector.mint, selector.burn] ∨
  q.host ∈ joins ∧ q.signature ∈ [selector.join, selector.exit]

theorem mem_adds_addIfHeld {host : Address} {signature : Bytes4} :
    (u, q) ∈ Proposal.adds (addIfHeld gov hosts witch host signature) ↔
    u = witch ∧ q = ⟨host, signature⟩ ∧ held hosts ⟨host, signature, witch⟩ := by
  unfold addIfHeld
  split
  case isTrue h  => simpa [Proposal.adds, Tx.adds, held] using fun _ _ => h
  case isFalse h => simpa [Proposal.adds, held] using fun _ _ => h

theorem mem_adds_addWitchToCloak :
    (u, q) ∈ Proposal.adds (addWitchToCloak gov hosts cauldron witch fyTokens joins) ↔
    u = witch ∧ (q.host = cauldron ∧ q.signature ∈ [selector.give, selector.slurp] ∨
    (q.host ∈ fyTokens ∧ q.signature = selector.burn ∨
      q.host ∈ joins ∧ q.signature ∈ [selector.join, selector.exit]) ∧
    held hosts ⟨q.host, q.signature, witch⟩) := by
  obtain ⟨host, signature⟩ := q
  simp only [addWitchToCloak, adds_append, adds_cons, adds_flatMap, List.mem_append,
    List.mem_flatMap, mem_adds_addIfHeld]
  simp only [Tx.adds, List.map_cons, List.map_nil, List.mem_cons, List.not_mem_nil, or_false,
    Prod.mk.injEq, Fragments.Permission.mk.injEq]
  grind

-- The Ladle is asked for one of its two roles on a Join.
theorem mem_adds_join {join : Address} :
    (u, q) ∈ Proposal.adds (if (hosts join).hasRole selector.join ladle then
      [⟨gov.cloak, .add ladle [⟨join, selector.join⟩, ⟨join, selector.exit⟩]⟩] else []) ↔
    u = ladle ∧ q.host = join ∧ q.signature ∈ [selector.join, selector.exit] ∧
    held hosts ⟨join, selector.join, ladle⟩ := by
  obtain ⟨host, signature⟩ := q
  split
  case isTrue h  => simp [Proposal.adds, Tx.adds, held, h]; tauto
  case isFalse h => simp [Proposal.adds, held, h]

theorem mem_adds_addLadleToCloak :
    (u, q) ∈ Proposal.adds (addLadleToCloak gov hosts cauldron ladle fyTokens joins) ↔
    u = ladle ∧ (q.host = cauldron ∧ q.signature ∈ [selector.build, selector.destroy,
      selector.tweak, selector.pour, selector.stir, selector.roll] ∨
    q.host ∈ fyTokens ∧ q.signature ∈ [selector.mint, selector.burn] ∨
    q.host ∈ joins ∧ q.signature ∈ [selector.join, selector.exit] ∧
    held hosts ⟨q.host, selector.join, ladle⟩) := by
  obtain ⟨host, signature⟩ := q
  simp only [addLadleToCloak, adds_append, adds_cons, adds_map, adds_flatMap, List.mem_append,
    List.mem_flatMap, mem_adds_join]
  simp only [Tx.adds, List.map_cons, List.map_nil, List.mem_cons, List.not_mem_nil, or_false,
    Prod.mk.injEq, Fragments.Permission.mk.injEq]
  grind

theorem adds_replaceCloak :
    (u, q) ∈ Proposal.adds
      (replaceCloak gov hosts cloakV1 assert cauldron ladle witch fyTokens joins users) ↔
    (u, q) ∈ Proposal.adds (addLadleToCloak gov hosts cauldron ladle fyTokens joins) ∨
    (u, q) ∈ Proposal.adds (addWitchToCloak gov hosts cauldron witch fyTokens joins) := by
  simp [replaceCloak, revokeRoot, grantRoot, checkPlan, Tx.adds, Proposal.adds]

-- All that happens are new entries in plans, and changes of ROOT.
theorem mem_replaceCloak
    (h : tx ∈ replaceCloak gov hosts cloakV1 assert cauldron ladle witch fyTokens joins users) :
    ¬tx.Removes ∧ ∀ w ∈ tx.writes, w.1.role = ROOT := by
  simp only [replaceCloak, revokeRoot, grantRoot, addLadleToCloak, addWitchToCloak, addIfHeld,
    checkPlan, List.mem_append, List.mem_cons, List.mem_map, List.mem_flatMap,
    List.mem_ite_nil_right, List.not_mem_nil, or_false] at h
  constructor
  · rintro ⟨_, _, e⟩
    grind
  · grind [Tx.writes]

theorem held_replaceCloak {r : Role} (hr : r.role ≠ ROOT)
    (h : Proposal.execute b others timelock c
      (replaceCloak gov hosts cloakV1 assert cauldron ladle witch fyTokens joins users) = .ok c') :
    held c'.hosts r = held c.hosts r := by
  rw [(leaves (onHosts_of_execute h)).held, Overwrite.apply_of_notMem]
  rintro w hw rfl
  obtain ⟨tx, htx, hw⟩ := List.mem_flatMap.mp hw
  exact hr <| (mem_replaceCloak htx).right w hw

-- The roles of the Witch and of the Ladle which are looked at are not ROOT.

theorem InWitchScope.role_ne (h : InWitchScope cauldron fyTokens joins q) : q.signature ≠ ROOT := by
  intro e
  simp only [InWitchScope, e] at h
  have hc : ROOT ∉ [selector.give, selector.slurp] := by decide
  have hf : ROOT ≠ selector.burn := by decide
  have hj : ROOT ∉ [selector.join, selector.exit] := by decide
  simp only [hc, hf, hj, and_false, or_false] at h

theorem InLadleScope.role_ne (h : InLadleScope cauldron fyTokens joins q) : q.signature ≠ ROOT := by
  intro e
  simp only [InLadleScope, e] at h
  have hc : ROOT ∉ [selector.build, selector.destroy, selector.tweak, selector.pour, selector.stir,
    selector.roll] := by decide
  have hf : ROOT ∉ [selector.mint, selector.burn] := by decide
  have hj : ROOT ∉ [selector.join, selector.exit] := by decide
  simp only [hc, hf, hj, and_false, or_false] at h

-- The plans which a new cloak gets agree with the roles at the end, in all that is looked at, if
-- all of the roles are held which are listed without a look.
theorem plans_agree_iff (hb : b.Lawful) (hn : ladle ≠ witch) (hl : ∀ q, ¬b.lists c.cloak ladle q)
    (hw : ∀ q, ¬b.lists c.cloak witch q)
    (h : Proposal.execute b others timelock c
      (replaceCloak gov c.hosts cloakV1 assert cauldron ladle witch fyTokens joins users) = .ok c') :
    ((∀ q, InWitchScope cauldron fyTokens joins q →
      (b.lists c'.cloak witch q ↔ held c'.hosts ⟨q.host, q.signature, witch⟩)) ↔
    ∀ s ∈ [selector.give, selector.slurp], held c.hosts ⟨cauldron, s, witch⟩) ∧
    ((∀ q, InLadleScope cauldron fyTokens joins q →
      (b.lists c'.cloak ladle q ↔ held c'.hosts ⟨q.host, q.signature, ladle⟩)) ↔
    (∀ s ∈ [selector.build, selector.destroy, selector.tweak, selector.pour, selector.stir,
      selector.roll], held c.hosts ⟨cauldron, s, ladle⟩) ∧
    (∀ fyToken ∈ fyTokens, ∀ s ∈ [selector.mint, selector.burn],
      held c.hosts ⟨fyToken, s, ladle⟩) ∧
    ∀ join ∈ joins,
      held c.hosts ⟨join, selector.join, ladle⟩ ↔ held c.hosts ⟨join, selector.exit, ladle⟩) := by
  have hlist : ∀ u q, b.lists c'.cloak u q ↔ _ := fun u q =>
    Proposal.listed_iff hb h fun tx htx => (mem_replaceCloak htx).left
  simp only [adds_replaceCloak, mem_adds_addLadleToCloak, mem_adds_addWitchToCloak] at hlist
  constructor
  case left =>
    have hlist := hlist witch
    simp only [hw, hn.symm, false_and, false_or, true_and] at hlist
    constructor
    case mp =>
      intro hq s hs'
      have hs : InWitchScope cauldron fyTokens joins ⟨cauldron, s⟩ := .inl ⟨rfl, hs'⟩
      rw [← held_replaceCloak hs.role_ne h, ← hq _ hs, hlist]
      exact .inl ⟨rfl, hs'⟩
    case mpr =>
      intro hh q hq
      rw [held_replaceCloak hq.role_ne h, hlist]
      constructor
      case mp =>
        rintro (⟨hc, hs⟩ | ⟨-, hq⟩)
        · exact hc ▸ hh _ hs
        · exact hq
      case mpr => exact fun hr => hq.imp_right fun hq => ⟨hq, hr⟩
  case right =>
    have hlist := hlist ladle
    simp only [hl, hn, false_and, or_false, false_or, true_and] at hlist
    constructor
    case mp =>
      intro hq
      have hq : ∀ q, InLadleScope cauldron fyTokens joins q →
          (b.lists c'.cloak ladle q ↔ held c.hosts ⟨q.host, q.signature, ladle⟩) :=
        fun q hs => (hq q hs).trans <| by rw [held_replaceCloak hs.role_ne h]
      refine ⟨fun s hs => ?cauldron, fun fyToken hf s hs => ?fyToken, fun join hj => ?join⟩
      case cauldron => exact (hq ⟨cauldron, s⟩ (.inl ⟨rfl, hs⟩)).mp <| (hlist _).mpr <| .inl ⟨rfl, hs⟩
      case fyToken  =>
        exact (hq ⟨fyToken, s⟩ (.inr <| .inl ⟨hf, hs⟩)).mp <| (hlist _).mpr <| .inr <| .inl ⟨hf, hs⟩
      case join =>
        have hs : selector.exit ∈ [selector.join, selector.exit] := .tail _ <| .head _
        rw [← hq ⟨join, selector.exit⟩ (.inr <| .inr ⟨hj, hs⟩), hlist]
        have hc : selector.exit ∉ [selector.build, selector.destroy, selector.tweak, selector.pour,
          selector.stir, selector.roll] := by decide
        have hf : selector.exit ∉ [selector.mint, selector.burn] := by decide
        simp only [hc, hf, and_false, false_or]
        exact ⟨fun hr => ⟨hj, hs, hr⟩, fun hr => hr.right.right⟩
    case mpr =>
      rintro ⟨hc, hf, hj⟩ q hq
      have hjs : ∀ q : Fragments.Permission, q.host ∈ joins → q.signature ∈ [selector.join, selector.exit] →
          (held c.hosts ⟨q.host, selector.join, ladle⟩ ↔
            held c.hosts ⟨q.host, q.signature, ladle⟩) := by
        intro q hm hs
        obtain e | e : q.signature = selector.join ∨ q.signature = selector.exit := by simpa using hs
        · rw [e]
        · rw [e]; exact hj _ hm
      rw [held_replaceCloak hq.role_ne h, hlist]
      constructor
      case mp =>
        rintro (⟨rfl, hs⟩ | ⟨hm, hs⟩ | ⟨hm, hs, hr⟩)
        · exact hc _ hs
        · exact hf _ hm _ hs
        · exact (hjs q hm hs).mp hr
      case mpr =>
        exact fun hr => hq.imp_right <| Or.imp_right fun ⟨hm, hs⟩ =>
          ⟨hm, hs, (hjs q hm hs).mpr hr⟩

namespace Moved

-- The state of the cloak is what it lists, and nobody is stopped.
def cloak : Fragments.EmergencyBrake (Address → Fragments.Permission → Prop) where
  lists s                     := s
  add s _ user permissions    := .ok fun u q => s u q ∨ (u = user ∧ q ∈ permissions)
  remove s _ user permissions := .ok fun u q => s u q ∧ ¬(u = user ∧ q ∈ permissions)

theorem lawful : cloak.Lawful where
  add _ _ _ _ _ h _ _    := by cases h; rfl
  remove _ _ _ _ _ h _ _ := by cases h; rfl

-- The new cloak is empty. The Ladle and the Witch have all roles, but not those on Join 9.
def chain : Chain (Address → Fragments.Permission → Prop) where
  hosts host := ⟨fun _ => ⟨fun account => host ≠ 9 ∨ account = 1, ROOT⟩⟩
  cloak _ _  := False

end Moved

theorem plans_agree_moved : ∃ c', Proposal.execute Moved.cloak (fun _ => .ok ()) 1 Moved.chain
    (replaceCloak ⟨1, 2⟩ Moved.chain.hosts 3 4 5 6 7 [8] [9] [6, 7]) = .ok c' ∧
    ∀ q, InLadleScope 5 [8] [9] q → (c'.cloak 6 q ↔ held c'.hosts ⟨q.host, q.signature, 6⟩) := by
  have h : Proposal.execute Moved.cloak (fun _ => .ok ()) 1 Moved.chain
      (replaceCloak ⟨1, 2⟩ Moved.chain.hosts 3 4 5 6 7 [8] [9] [6, 7]) = .ok _ :=
    rfl
  refine ⟨_, h, (plans_agree_iff Moved.lawful (by decide) (fun _ => id) (fun _ => id) h).right.mpr ?_⟩
  refine ⟨?cauldron, ?fyToken, ?join⟩
  case cauldron => intro s _; rfl
  case fyToken  => rintro _ (_ | ⟨_, ⟨⟩⟩) s _; rfl
  case join     => rintro _ (_ | ⟨_, ⟨⟩⟩); rfl

end Permissions
