import YieldModel.Witch.Execution

open Execution

namespace OldWitch

-- A state of an execution, together with the account which owned each vault when its last auction
-- began.
structure Logged where
  state : State
  owner : Bytes12 → Address

namespace Logged

-- The Witch does not see the log. It is only extended by calls of `auction`.
def log (l : Logged) : Action → Bytes12 → Address
  | .auction v => Function.update l.owner v (l.state.cauldron.vaults v).owner
  | _          => l.owner

-- Others do not give away the vaults of the Witch, nor lower their debt, and do not give theirs to
-- the Witch.
structure Spares (this : Address) (c c' : Cauldron) : Prop where
  owner : ∀ v, (c'.vaults v).owner = this ↔ (c.vaults v).owner = this
  art   : ∀ v, (c.vaults v).owner = this → (c.balances v).art ≤ (c'.balances v).art

inductive Step (this : Address) : Logged → Logged → Prop
  | call {l : Logged} {ctx : Context} {a : Action} {s' : State} :
    exec this l.state ctx a = .ok s' → Step this l ⟨s', l.log a⟩
  | roles {l : Logged} (r : AccessControl) : Step this l { l with state.witch.roles := r }
  | other {l : Logged} {c : Cauldron} :
    Spares this l.state.cauldron c → Step this l { l with state.cauldron := c }

-- A vault belongs to the Witch while it is under auction, and its record has the former owner.
structure Custody (this : Address) (l : Logged) : Prop where
  owned  : ∀ v, (l.state.cauldron.vaults v).owner = this ↔ 0 < (l.state.witch.auctions v).start
  owner  : ∀ v, 0 < (l.state.witch.auctions v).start →
           (l.state.witch.auctions v).owner = l.owner v
  former : ∀ v, 0 < (l.state.witch.auctions v).start → l.owner v ≠ this

end Logged

variable {this : Address} {s s' : State} {ctx : Context} {u v : Bytes12} {l l' : Logged}
  {art ink : Uint 128}

-- A purchase ends an auction iff it repays the rest of the debt.
theorem State.Sells.ends_iff (h : s.Sells v art ink s') (hu : 0 < (s.witch.auctions u).start) :
    (s'.witch.auctions u).start = 0 ↔
    0 < (s.cauldron.balances u).art ∧ (s'.cauldron.balances u).art = 0 := by
  by_cases he : u = v
  case neg =>
    rw [h.auctions u he, h.balances u he]
    exact ⟨fun hz => absurd hz hu.ne', fun ⟨hp, hz⟩ => absurd hz hp.ne'⟩
  case pos =>
    subst he
    refine ⟨fun hz => ⟨h.debt, ?_⟩, fun ⟨_, hz⟩ => by rw [(h.ends hz).left]⟩
    by_contra ha
    exact absurd ((h.goes_on ha).left ▸ hz) hu.ne'

theorem State.Sells.custody (h : s.Sells v art ink s') {o : Bytes12 → Address}
    (hc : Logged.Custody this ⟨s, o⟩) : Logged.Custody this ⟨s', o⟩ := by
  have hv : (s'.cauldron.vaults v).owner = this ↔ 0 < (s'.witch.auctions v).start := by
    by_cases hz : (s'.cauldron.balances v).art = 0
    case pos =>
      have ⟨ha, ho⟩ := h.ends hz
      have hn := hc.owner v h.started ▸ hc.former v h.started
      simpa [ha, ho] using hn
    case neg =>
      have ⟨ha, hk⟩ := h.goes_on hz
      exact ha ▸ hk ▸ hc.owned v
  have hr : 0 < (s'.witch.auctions v).start → s'.witch.auctions v = s.witch.auctions v := by
    intro hp
    by_cases hz : (s'.cauldron.balances v).art = 0
    case pos => simp [(h.ends hz).left] at hp
    case neg => exact (h.goes_on hz).left
  have ha : ∀ u, 0 < (s'.witch.auctions u).start → s'.witch.auctions u = s.witch.auctions u := by
    intro u hp
    by_cases he : u = v
    case pos => exact he ▸ hr (he ▸ hp)
    case neg => exact h.auctions u he
  exact {
    owned  := fun u => by
      by_cases he : u = v
      case pos => exact he ▸ hv
      case neg => exact h.auctions u he ▸ h.vaults u he ▸ hc.owned u
    owner  := fun u hu => ha u hu ▸ hc.owner u (ha u hu ▸ hu)
    former := fun u hu => hc.former u (ha u hu ▸ hu)
  }

theorem State.Starts.start_pos (h : s.Starts this ctx v s') :
    0 < (s'.witch.auctions v).start := by
  rw [← Fin.val_pos_iff, h.start]
  exact ctx.block.timestamp_pos

theorem State.Starts.custody (h : s.Starts this ctx v s') {o : Bytes12 → Address}
    (hc : Logged.Custody this ⟨s, o⟩) :
    Logged.Custody this ⟨s', Function.update o v (s.cauldron.vaults v).owner⟩ where
  owned u := by
    by_cases he : u = v
    case pos => simp [he, h.cauldron, h.start_pos]
    case neg =>
      simp only [h.auctions u he, h.cauldron, Cauldron.give_vaults_ne he]
      exact hc.owned u
  owner u hu := by
    by_cases he : u = v
    case pos => simp [he, h.owner]
    case neg =>
      simp only [h.auctions u he, Function.update_of_ne he] at hu ⊢
      exact hc.owner u hu
  former u hu := by
    by_cases he : u = v
    case pos =>
      -- The vault was not under auction, so it did not belong to the Witch.
      simp only [he, Function.update_self]
      exact fun ho => absurd h.idle (hc.owned v |>.mp ho).ne'
    case neg =>
      simp only [h.auctions u he, Function.update_of_ne he] at hu ⊢
      exact hc.former u hu

theorem State.Governs.custody (h : s.Governs s') {o : Bytes12 → Address}
    (hc : Logged.Custody this ⟨s, o⟩) : Logged.Custody this ⟨s', o⟩ where
  owned  := by simp only [h.cauldron, h.auctions]; exact hc.owned
  owner  := by simp only [h.auctions]; exact hc.owner
  former := by simp only [h.auctions]; exact hc.former

namespace Logged

theorem step_custody : Preserves (Step this) (Custody this) := by
  intro l _ stp hc
  cases stp
  case roles r => exact ⟨hc.owned, hc.owner, hc.former⟩
  case other c h => exact ⟨fun v => (h.owner v).trans (hc.owned v), hc.owner, hc.former⟩
  case call a _ h =>
    replace h := exec_eq_ok h
    cases h
    case point h      => exact h.custody hc
    case setIlk h     => exact h.custody hc
    case auction h    => exact h.custody hc
    case buy h        => exact h.custody hc
    case payAll h     => exact h.custody hc

theorem init_custody {sender ladle : Address} {c : Cauldron} {o : Bytes12 → Address}
    (hc : ∀ v, (c.vaults v).owner ≠ this) : Custody this ⟨init sender ladle c, o⟩ where
  owned v  := by simp [init, hc v]
  owner v  := by simp [init]
  former v := by simp [init]

-- What becomes of a record, and of its vault, in one step.
theorem step_ends_iff (stp : Step this l l') (hc : l.Custody this)
    (hv : 0 < (l.state.witch.auctions v).start) :
    (l'.state.witch.auctions v).start = 0 ↔
    0 < (l.state.cauldron.balances v).art ∧ (l'.state.cauldron.balances v).art = 0 := by
  have hk {s' : State} (ha : (s'.witch.auctions v).start = (l.state.witch.auctions v).start)
      (hb : (l.state.cauldron.balances v).art ≤ (s'.cauldron.balances v).art) :
      (s'.witch.auctions v).start = 0 ↔
      0 < (l.state.cauldron.balances v).art ∧ (s'.cauldron.balances v).art = 0 := by
    rw [ha]
    exact ⟨fun hz => absurd hz hv.ne', fun ⟨hp, hz⟩ => absurd (hp.trans_le hb) (hz ▸ lt_irrefl _)⟩
  cases stp
  case roles r => exact hk rfl le_rfl
  case other c h => exact hk rfl (h.art v (hc.owned v |>.mpr hv))
  case call a _ h =>
    replace h := exec_eq_ok h
    cases h
    case point h   => exact hk (by rw [h.auctions]) (by rw [h.cauldron])
    case setIlk h  => exact hk (by rw [h.auctions]) (by rw [h.cauldron])
    case buy h     => exact h.ends_iff hv
    case payAll h  => exact h.ends_iff hv
    case auction u h =>
      have hu : v ≠ u := fun he => absurd h.idle (he ▸ hv.ne')
      exact hk (by rw [h.auctions v hu]) (by simp [h.cauldron])

-- The call which ends an auction gives the vault back, with the collateral it does not pay out.
structure Returns (l : Logged) (v : Bytes12) (s' : State) : Prop where
  owner : (s'.cauldron.vaults v).owner = l.owner v
  ink   : ∃ ctx paid,
          ((∃ base min, buy l.state ctx v base min = .ok (s', paid)) ∨
            ∃ min, payAll l.state ctx v min = .ok (s', paid)) ∧
          ((s'.cauldron.balances v).ink : ℕ) + paid = (l.state.cauldron.balances v).ink

theorem Custody.purchased (hc : l.Custody this) (h : l.state.Sells u art ink s')
    (hv : 0 < (l.state.witch.auctions v).start) (hz : (s'.witch.auctions v).start = 0) :
    u = v ∧ (s'.cauldron.vaults v).owner = l.owner v := by
  have hu : u = v := by
    by_contra hu
    exact hv.ne' (h.auctions v (Ne.symm hu) ▸ hz)
  subst hu
  exact ⟨rfl, (h.ends (h.ends_iff hv |>.mp hz).right).right.trans (hc.owner u hv)⟩

theorem step_returns (stp : Step this l l') (hc : l.Custody this)
    (hv : 0 < (l.state.witch.auctions v).start) (hz : (l'.state.witch.auctions v).start = 0) :
    l.Returns v l'.state := by
  cases stp
  case roles   => exact absurd hz hv.ne'
  case other   => exact absurd hz hv.ne'
  case call ctx a s' h =>
    cases a <;> simp only [exec, Call.map_eq_ok, Prod.exists, exists_and_right, exists_eq_right] at h
    case point   => exact absurd ((point_eq_ok h).auctions ▸ hz) hv.ne'
    case setIlk  => exact absurd ((setIlk_eq_ok h).left.auctions ▸ hz) hv.ne'
    case auction u =>
      replace h := auction_eq_ok h
      have hu : v ≠ u := fun he => absurd h.idle (he ▸ hv.ne')
      exact absurd (h.auctions v hu ▸ hz) hv.ne'
    case buy u base m =>
      obtain ⟨paid, h⟩ := h
      obtain ⟨art, ink, hi, _, _, _, hs⟩ := buy_eq_ok h
      obtain ⟨hu, ho⟩ := hc.purchased hs hv hz
      subst hu
      exact ⟨ho, ctx, paid, .inl ⟨base, m, h⟩, hi ▸ hs.ink⟩
    case payAll u m =>
      obtain ⟨paid, h⟩ := h
      obtain ⟨ink, _, hi, _, _, _, hs⟩ := payAll_eq_ok h
      obtain ⟨hu, ho⟩ := hc.purchased hs hv hz
      subst hu
      exact ⟨ho, ctx, paid, .inr ⟨m, h⟩, hi ▸ hs.ink⟩

end Logged

-- The Witch owns exactly the vaults under auction, and returns each of them to the account from
-- which it took it, in the call which repays the rest of its debt.
theorem owned_iff_started {sender ladle : Address} {c : Cauldron} {o : Bytes12 → Address}
    (hc : ∀ v, (c.vaults v).owner ≠ this)
    (e : Steps (Logged.Step this) ⟨init sender ladle c, o⟩ l) (v : Bytes12) :
    ((l.state.cauldron.vaults v).owner = this ↔ 0 < (l.state.witch.auctions v).start) ∧
    (0 < (l.state.witch.auctions v).start →
      (l.state.witch.auctions v).owner = l.owner v ∧
      ∀ l', Logged.Step this l l' →
        ((l'.state.witch.auctions v).start = 0 ↔
          0 < (l.state.cauldron.balances v).art ∧ (l'.state.cauldron.balances v).art = 0) ∧
        ((l'.state.witch.auctions v).start = 0 → l.Returns v l'.state)) := by
  have hl := Logged.step_custody.steps e (Logged.init_custody hc)
  refine ⟨hl.owned v, fun hv => ⟨hl.owner v hv, fun l' stp => ⟨?_, ?_⟩⟩⟩
  · exact Logged.step_ends_iff stp hl hv
  · exact Logged.step_returns stp hl hv

namespace Taken

def block : Context :=
  .plain ⟨1, Nat.one_pos⟩

def governed : State :=
  let s := init 7 0 ⟨fun _ => ⟨1, 0, 0⟩, fun _ => ⟨100, 100⟩⟩
  { s with witch.roles := s.witch.roles._grantRole selector.setIlk 7 }

def offered : Call State :=
  exec 2 governed block (.setIlk 0 3600 500000000000000000 1000 0 0)

def taken : Call State :=
  offered >>= fun s => exec 2 s block (.auction 0)

end Taken

-- Vault 0 is taken from account 1.
theorem owned_iff_started_taken : ∃ s, Taken.taken = .ok s ∧
    (s.cauldron.vaults 0).owner = 2 ∧ (s.witch.auctions 0).owner = 1 := by
  have ho : (fun s => (s.witch.auctions 0).start) <$> Taken.taken = .ok 1 := by decide
  obtain ⟨s, hs, ho⟩ := Call.map_eq_ok.mp ho
  obtain ⟨s₁, h₁, h₂⟩ := Call.bind_eq_ok.mp hs
  have e : Steps (Logged.Step 2) ⟨init 7 0 ⟨fun _ => ⟨1, 0, 0⟩, fun _ => ⟨100, 100⟩⟩, fun _ => 0⟩
      ⟨s, _⟩ :=
    .tail (.tail (.single (.roles _)) (.call h₁)) (.call h₂)
  have ⟨h, h'⟩ := owned_iff_started (fun _ => by simp) e 0
  have hp : 0 < (s.witch.auctions 0).start := ho ▸ by decide
  refine ⟨s, hs, h.mpr hp, (h' hp).left.trans ?_⟩
  cases h₁
  rfl

end OldWitch
