import YieldModel.Lib.Tally
import YieldModel.Join.Backing
import YieldModel.Fragments.InStep

open Execution Tally

namespace Fragments

variable {κ ω : Type} {sys : System} {ext : Externals κ ω} {c c' c₀ : Chain κ ω}
  {proposal : Proposal} {host user sender x : Address} {amount : Uint 128}
  {pairs : List (Address × Address)}

theorem stored_lt (c : Chain κ ω) (x : Address) : c.stored x < 2 ^ 256 := by
  unfold Chain.stored
  split
  case h_1 => exact Fin.isLt _
  case h_2 => exact Nat.two_pow_pos _

theorem stored_onRoles {f : AccessControl → Call AccessControl} (h : c.onRoles host f = .ok c') :
    c'.stored = c.stored := by
  unfold Chain.onRoles at h
  split at h
  case h_1 => cases h
  case h_2 =>
    simp only [Call.bind_eq_ok, Call.pure_eq_ok] at h
    obtain ⟨r, -, rfl⟩ := h
    funext x
    by_cases hx : x = host
    case neg => simp [Chain.stored, hx]
    case pos =>
      subst hx
      cases hc : c.contracts x <;> simp [Chain.stored, hc, Contract.setRoles]

theorem stored_of_onJoin {s : Join.State} {j : Join} (hj : c.contracts host = .join j)
    (hc : c' = { c with
      contracts := Function.update c.contracts host (.join s.join), tokens := s.tokens }) :
    c.stored host = j.storedBalance ∧ c'.stored host = s.join.storedBalance ∧
    ∀ x ≠ host, c'.stored x = c.stored x := by
  subst hc
  exact ⟨by simp [Chain.stored, hj], by simp [Chain.stored], fun x hx => by simp [Chain.stored, hx]⟩

theorem stored_exit (h : c.onJoin host (Join.exit host · sender user amount) = .ok c') :
    c'.stored host + amount = c.stored host ∧ ∀ x ≠ host, c'.stored x = c.stored x := by
  obtain ⟨j, s, a, hj, hs, hc⟩ := onJoin_eq_ok h
  have ⟨h₀, h₁, ho⟩ := stored_of_onJoin hj hc
  simp only [Join.exit, Call.bind_eq_ok] at hs
  obtain ⟨_, -, hs⟩ := hs
  rw [h₀, h₁]
  exact ⟨(Join.exit_eq_ok hs).stored, ho⟩

-- The addition of a Join does not wrap if the tokens come from elsewhere.
theorem stored_join (h : c.onJoin host (Join.join host · sender user amount) = .ok c')
    (hw : user = host → c.stored host + amount < 2 ^ 256) :
    c'.stored host = c.stored host + amount ∧ ∀ x ≠ host, c'.stored x = c.stored x := by
  obtain ⟨j, s, a, hj, hs, hc⟩ := onJoin_eq_ok h
  have ⟨h₀, h₁, ho⟩ := stored_of_onJoin hj hc
  simp only [Join.join, Call.bind_eq_ok] at hs
  obtain ⟨_, -, hs⟩ := hs
  have hs := Join.join_eq_ok hs
  have hl : c.stored host + amount < 2 ^ 256 := by
    by_cases hu : user = host
    case pos => exact hw hu
    case neg => exact h₀ ▸ (hs.backed_iff.mpr fun he => absurd he hu).right
  refine ⟨?_, ho⟩
  rw [h₁, hs.stored, Uint.truncate_val, h₀, Nat.mod_eq_of_lt (h₀ ▸ hl)]

-- A drain moves the amounts with which it has been built.
theorem drainJoin_stored {oldJoin newJoin : Address}
    (h : executeAll sys ext c (drainJoin sys oldJoin newJoin amount) = .ok c') (x : Address) :
    c'.stored x + (if oldJoin = x then (amount : ℕ) else 0) =
    c.stored x + if newJoin = x then (amount : ℕ) else 0 := by
  simp only [executeAll, drainJoin, List.foldlM_cons, List.foldlM_nil, Call.bind_eq_ok,
    Call.pure_eq_ok, execute] at h
  obtain ⟨c₁, h₁, c₂, h₂, c₃, h₃, c₄, h₄, c₅, h₅, c₆, h₆, c₇, h₇, rfl⟩ := h
  rw [stored_onRoles h₇, stored_onRoles h₆, stored_onRoles h₅]
  obtain ⟨he, hn⟩ := stored_exit h₃
  rw [stored_onRoles h₂, stored_onRoles h₁] at he hn
  have hl := stored_lt c oldJoin
  obtain ⟨hj, hm⟩ := stored_join h₄ fun he => by subst he; omega
  by_cases ho : oldJoin = x
  case pos =>
    subst ho
    by_cases hx : newJoin = oldJoin
    case pos =>
      subst hx
      rw [if_pos rfl, hj]
      omega
    case neg => rw [if_pos rfl, if_neg hx, hm _ (Ne.symm hx), he, add_zero]
  case neg =>
    by_cases hx : newJoin = x
    case pos =>
      subst hx
      rw [if_neg ho, if_pos rfl, hj, hn _ (Ne.symm ho), add_zero]
    case neg => rw [if_neg ho, if_neg hx, hm _ (Ne.symm hx), hn _ (Ne.symm ho)]

def sent (a : Address → ℕ) (pairs : List (Address × Address)) (x : Address) : ℕ :=
  tally pairs Prod.fst (a ·.fst) x

def received (a : Address → ℕ) (pairs : List (Address × Address)) (x : Address) : ℕ :=
  tally pairs Prod.snd (a ·.fst) x

theorem executeAll_append {p q : Proposal} : executeAll sys ext c (p ++ q) = .ok c' ↔
    ∃ c₁, executeAll sys ext c p = .ok c₁ ∧ executeAll sys ext c₁ q = .ok c' := by
  simp only [executeAll, List.foldlM_append, Call.bind_eq_ok]

theorem drainJoins_stored {a : Address → Uint 128}
    (h : executeAll sys ext c (pairs.flatMap fun p => drainJoin sys p.1 p.2 (a p.1)) = .ok c')
    (x : Address) :
    c'.stored x + sent (a ·) pairs x = c.stored x + received (a ·) pairs x := by
  induction pairs generalizing c
  case nil            => cases h; rfl
  case cons p pairs hi =>
    rw [List.flatMap_cons, executeAll_append] at h
    obtain ⟨c₁, h₁, h⟩ := h
    have h₁ := drainJoin_stored h₁ x
    have h := hi h
    simp only [sent, received, tally_cons] at h ⊢
    omega

-- The amounts `a` of a drain are those which leave nothing behind if Joins store `f`.
def Settles (a f : Address → ℕ) (pairs : List (Address × Address)) : Prop :=
  ∀ p ∈ pairs, f p.1 + received a pairs p.1 = sent a pairs p.1 ∧
    received a pairs p.2 = f p.1 + sent a pairs p.2

-- If each Join occurs once, they are those which are stored.
theorem settles_iff {a f : Address → ℕ}
    (h : (pairs.map Prod.fst ++ pairs.map Prod.snd).Nodup) :
    Settles a f pairs ↔ ∀ p ∈ pairs, f p.1 = a p.1 := by
  have ⟨ho, hn, hd⟩ := List.nodup_append.mp h
  refine forall₂_congr fun p hp => ?_
  have hp₁ : p.1 ∉ pairs.map Prod.snd := fun h => hd _ (List.mem_map_of_mem hp) _ h rfl
  have hp₂ : p.2 ∉ pairs.map Prod.fst := fun h => hd _ h _ (List.mem_map_of_mem hp) rfl
  have hs : sent a pairs p.1 = a p.1 := tally_of_nodup ho hp
  have hr : received a pairs p.2 = a p.1 := tally_of_nodup hn hp
  have hr' : received a pairs p.1 = 0 := tally_eq_zero hp₁
  have hs' : sent a pairs p.2 = 0 := tally_eq_zero hp₂
  rw [hs, hr, hr', hs']
  omega

-- A drain moves everything iff it is built with the amounts which are stored when it is executed.
theorem drain_moves_all_iff (hb : drainJoinsFragment sys c₀ pairs = .ok proposal)
    (hx : executeAll sys ext c proposal = .ok c') :
    (∀ p ∈ pairs, c'.stored p.1 = 0 ∧ c'.stored p.2 = c.stored p.2 + c.stored p.1) ↔
    Settles c₀.stored c.stored pairs := by
  have ⟨he, hl⟩ := drainJoinsFragment_eq_ok hb
  let a x : Uint 128 := Uint.truncate 128 (c₀.stored x)
  have ha : ∀ p ∈ pairs, (a p.1 : ℕ) = c₀.stored p.1 :=
    fun p hp => Uint.truncate_val_of_lt (hl p hp)
  have hm : ∀ x, c'.stored x + sent c₀.stored pairs x = c.stored x + received c₀.stored pairs x := by
    intro x
    have h := drainJoins_stored (a := a) (he ▸ hx) x
    rwa [sent, tally_congr ha, received, tally_congr ha] at h
  refine forall₂_congr fun p _ => ?_
  have ho := hm p.1
  have hn := hm p.2
  omega

-- What may happen between building a proposal and executing it.
inductive Uses (pairs : List (Address × Address)) : Chain κ ω → Chain κ ω → Prop
  | join {c c' : Chain κ ω} {p : Address × Address} {sender user : Address} {amount : Uint 128} :
    p ∈ pairs → c.onJoin p.1 (Join.join p.1 · sender user amount) = .ok c' → Uses pairs c c'
  | exit {c c' : Chain κ ω} {p : Address × Address} {sender user : Address} {amount : Uint 128} :
    p ∈ pairs → c.onJoin p.1 (Join.exit p.1 · sender user amount) = .ok c' → Uses pairs c c'

namespace Delayed

-- Join 5 stores 100 tokens, and account 7 may join with 10 more.
def chain : Chain (Address → List Permission) Unit where
  contracts a :=
    if a = 5 then .join ⟨(AccessControl.init 1)._grantRole selector.join 7, 9, 100⟩
    else if a = 6 then .join ⟨.init 1, 9, 0⟩
    else .other
  tokens _    := {
    balances      := ((Ledger.empty 256 Address).mint 5 100 >>= (·.mint 7 10)).toOption.getD
      (.empty 256 Address)
    allowance _ _ := Uint.max 256
  }
  cloak _     := []
  rest        := ()

def built : Call Proposal :=
  drainJoinsFragment Drained.system chain [(5, 6)]

def joined : Call (Chain (Address → List Permission) Unit) :=
  chain.onJoin 5 (Join.join 5 · 7 7 10)

end Delayed

theorem drain_moves_all_iff_atOnce : ∃ p c, Delayed.built = .ok p ∧
    executeAll Drained.system Drained.externals Delayed.chain p = .ok c ∧
    c.stored 5 = 0 ∧ c.stored 6 = Delayed.chain.stored 6 + Delayed.chain.stored 5 := by
  have h : (do
      let p ← Delayed.built
      let c ← executeAll Drained.system Drained.externals Delayed.chain p
      return c.stored 5) = .ok 0 := by
    decide +kernel
  simp only [Call.bind_eq_ok, Call.pure_eq_ok] at h
  obtain ⟨p, hb, c, hx, _⟩ := h
  have hs : Settles Delayed.chain.stored Delayed.chain.stored [(5, 6)] :=
    (settles_iff (by decide)).mpr fun _ _ => rfl
  have ⟨ho, hn⟩ := (drain_moves_all_iff hb hx).mpr hs (5, 6) List.mem_cons_self
  exact ⟨p, c, hb, hx, ho, hn⟩

-- What is joined after the proposal has been built stays behind.
theorem drain_leaves_behind : ¬∀ (κ ω : Type) (sys : System) (ext : Externals κ ω)
    (pairs : List (Address × Address)) (proposal : Proposal) (c₀ c c' : Chain κ ω),
    drainJoinsFragment sys c₀ pairs = .ok proposal → Steps (Uses pairs) c₀ c →
    executeAll sys ext c proposal = .ok c' →
    ∀ p ∈ pairs, c'.stored p.1 = 0 ∧ c'.stored p.2 = c.stored p.2 + c.stored p.1 := by
  intro hn
  have h : (do
      let p ← Delayed.built
      let c ← Delayed.joined
      let c ← executeAll Drained.system Drained.externals c p
      return c.stored 5) = .ok 10 := by
    decide +kernel
  simp only [Call.bind_eq_ok, Call.pure_eq_ok] at h
  obtain ⟨p, hb, c, hj, c', hx, h⟩ := h
  have e : Steps (Uses [(5, 6)]) Delayed.chain c := .single (.join List.mem_cons_self hj)
  have ⟨ho, _⟩ := hn _ _ _ _ _ _ _ _ _ hb e hx (5, 6) List.mem_cons_self
  exact absurd (ho.symm.trans h) (by decide)

end Fragments
