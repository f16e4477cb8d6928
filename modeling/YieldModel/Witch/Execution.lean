import YieldModel.Lib.Execution
import YieldModel.Witch.Basic

open Math Execution

namespace OldWitch

variable {this : Address} {s s' s₁ s₂ : State} {ctx : Context} {v : Bytes12}

-- A context in which base and debt are worth the same, and no other contract reverts.
def Context.plain (block : Block) : Context where
  sender           := 7
  block            := block
  level _          := -1
  series _         := ⟨0, 0, 0⟩
  debtFromBase _ b := .ok b
  debtToBase _ a   := .ok a
  slurp _ _ _      := .ok ()
  joins _ _        := 1
  exit _ _ _       := .ok ()
  join _ _ _       := .ok ()

-- The collateral which is sold for `art` at the current price of a vault.
def quote (s : State) (block : Block) (v : Bytes12) (art : ℕ) : Call ℕ := do
  let ilk_ := s.witch.ilks (s.cauldron.vaults v).ilkId
  let elapsed ← Uint.sub (Uint.truncate 32 block.timestamp) (s.witch.auctions v).start
  let price ← inkPrice (s.cauldron.balances v) ilk_.initialOffer ilk_.duration elapsed
  wmul art price

-- What a purchase does which repays `art` and pays out `ink` of a vault.
structure State.Sells (s : State) (v : Bytes12) (art ink : Uint 128) (s' : State) : Prop where
  started  : 0 < (s.witch.auctions v).start
  debt     : 0 < (s.cauldron.balances v).art
  ilks     : s'.witch.ilks = s.witch.ilks
  sum      : ((s'.witch.limits (s.cauldron.vaults v).ilkId).sum : ℕ) + ink =
             (s.witch.limits (s.cauldron.vaults v).ilkId).sum
  limits   : ∀ i ≠ (s.cauldron.vaults v).ilkId, s'.witch.limits i = s.witch.limits i
  ink      : ((s'.cauldron.balances v).ink : ℕ) + ink = (s.cauldron.balances v).ink
  art      : ((s'.cauldron.balances v).art : ℕ) + art = (s.cauldron.balances v).art
  balances : ∀ u ≠ v, s'.cauldron.balances u = s.cauldron.balances u
  auctions : ∀ u ≠ v, s'.witch.auctions u = s.witch.auctions u
  vaults   : ∀ u ≠ v, s'.cauldron.vaults u = s.cauldron.vaults u
  ilkId    : (s'.cauldron.vaults v).ilkId = (s.cauldron.vaults v).ilkId
  ends     : (s'.cauldron.balances v).art = 0 →
             s'.witch.auctions v = ⟨0, 0⟩ ∧
             (s'.cauldron.vaults v).owner = (s.witch.auctions v).owner
  goes_on  : (s'.cauldron.balances v).art ≠ 0 →
             s'.witch.auctions v = s.witch.auctions v ∧
             s'.cauldron.vaults v = s.cauldron.vaults v

theorem release_eq_ok {ilkId : Bytes6} {ink : Uint 128} : release s ilkId ink = .ok s' ↔
    ∃ sum : Uint 128, (sum : ℕ) + ink = (s.witch.limits ilkId).sum ∧
    s' = { s with
      witch.limits := Function.update s.witch.limits ilkId { s.witch.limits ilkId with sum } } := by
  simp [release, Call.map_eq_ok, Uint.sub_eq_ok, @eq_comm _ _ s']

-- The common end of both ways of buying: `c` are the accounts after collateral and debt have been
-- taken from the vault.
theorem State.Sells.of_release {art ink : Uint 128} {c : Cauldron}
    (hs : 0 < (s.witch.auctions v).start) (hd : 0 < (s.cauldron.balances v).art)
    (hr : release s (s.cauldron.vaults v).ilkId ink = .ok s₁)
    (hc : s.cauldron.Slurps v ink art c)
    (h : (if (c.balances v).art = 0 then close ⟨s₁.witch, c⟩ v (s.witch.auctions v)
      else ⟨s₁.witch, c⟩) = s') : s.Sells v art ink s' := by
  obtain ⟨sum, hsum, rfl⟩ := release_eq_ok.mp hr
  subst h
  split
  case isTrue hz =>
    exact {
      started  := hs
      debt     := hd
      ilks     := rfl
      sum      := by simpa [close] using hsum
      limits   := fun i hi => by simp [close, hi]
      ink      := hc.ink
      art      := hc.art
      balances := hc.others
      auctions := fun u hu => by simp [close, hu]
      vaults   := fun u hu => by simp [close, Cauldron.give_vaults_ne hu, hc.vaults]
      ilkId    := by simp [close, hc.vaults]
      ends     := fun _ => by simp [close]
      goes_on  := fun h => absurd hz h
    }
  case isFalse hz =>
    exact {
      started  := hs
      debt     := hd
      ilks     := rfl
      sum      := by simpa using hsum
      limits   := fun i hi => by simp [hi]
      ink      := hc.ink
      art      := hc.art
      balances := hc.others
      auctions := fun _ _ => rfl
      vaults   := fun _ _ => by rw [hc.vaults]
      ilkId    := by rw [hc.vaults]
      ends     := fun h => absurd h hz
      goes_on  := fun _ => ⟨rfl, by rw [hc.vaults]⟩
    }

theorem buy_eq_ok {base m : Uint 128} {ink : ℕ} (h : buy s ctx v base m = .ok (s', ink)) :
    ∃ art ink' : Uint 128, (ink' : ℕ) = ink ∧ m ≤ ink' ∧
    ctx.debtFromBase (s.cauldron.vaults v).seriesId base = .ok art ∧
    quote s ctx.block v art = .ok ink ∧ s.Sells v art ink' s' := by
  simp only [buy, Call.bind_eq_ok, Call.require_eq_ok, Call.pure_eq_ok, Uint.cast_eq_ok,
    Uint.diff_eq_ok, Prod.mk.injEq, exists_const] at h
  obtain ⟨hs, hd, art, ha, elapsed, he, price, hp, _, hw, hm, _, -, ink', rfl, s₁, hr, _, -, c, hc,
    _, -, left, hl, hs', rfl⟩ := h
  have hc₁ : s.cauldron.slurp v ink' art = .ok c := by
    obtain ⟨_, _, rfl⟩ := release_eq_ok.mp hr
    exact hc
  have hc₂ := Cauldron.slurp_eq_ok hc₁
  have hz : left = 0 ↔ (c.balances v).art = 0 := by
    have := hc₂.art
    rw [← Fin.val_eq_zero_iff]
    omega
  simp only [hz] at hs'
  refine ⟨art, ink', rfl, hm, ha, ?_, .of_release hs hd hr hc₂ hs'⟩
  simp only [quote, Call.bind_eq_ok]
  exact ⟨elapsed, he, price, hp, hw⟩

theorem payAll_eq_ok {m : Uint 128} {ink : ℕ} (h : payAll s ctx v m = .ok (s', ink)) :
    ∃ (ink' : Uint 128) (q : ℕ), (ink' : ℕ) = ink ∧
    quote s ctx.block v (s.cauldron.balances v).art = .ok q ∧ m ≤ q ∧
    ink = min ((s.cauldron.balances v).ink : ℕ) q ∧
    s.Sells v (s.cauldron.balances v).art ink' s' := by
  simp only [payAll, Call.bind_eq_ok, Call.require_eq_ok, Call.pure_eq_ok, Uint.cast_eq_ok,
    Prod.mk.injEq, exists_const] at h
  obtain ⟨hs, hd, elapsed, he, price, hp, q, hw, hm, ink', hi, s₁, hr, _, -, c, hc, _, -, _, -,
    hs', rfl⟩ := h
  have hc₁ : s.cauldron.slurp v ink' (s.cauldron.balances v).art = .ok c := by
    obtain ⟨_, _, rfl⟩ := release_eq_ok.mp hr
    exact hc
  have hc₂ := Cauldron.slurp_eq_ok hc₁
  have hz : (c.balances v).art = 0 := by
    have := hc₂.art
    rw [← Fin.val_eq_zero_iff]
    omega
  refine ⟨ink', q, rfl, ?_, hm, ?_, .of_release hs hd hr hc₂ (by rw [if_pos hz]; exact hs')⟩
  · simp only [quote, Call.bind_eq_ok]
    exact ⟨elapsed, he, price, hp, hw⟩
  · rw [hi, min_def]
    split <;> split <;> omega

-- What the start of an auction does.
structure State.Starts (s : State) (this : Address) (ctx : Context) (v : Bytes12) (s' : State) :
    Prop where
  idle     : (s.witch.auctions v).start = 0
  under    : ctx.level v < 0
  ilks     : s'.witch.ilks = s.witch.ilks
  sum      : ((s'.witch.limits (s.cauldron.vaults v).ilkId).sum : ℕ) =
             (s.witch.limits (s.cauldron.vaults v).ilkId).sum + (s.cauldron.balances v).ink
  limits   : ∀ i ≠ (s.cauldron.vaults v).ilkId, s'.witch.limits i = s.witch.limits i
  owner    : (s'.witch.auctions v).owner = (s.cauldron.vaults v).owner
  start    : ((s'.witch.auctions v).start : ℕ) = ctx.block.timestamp
  auctions : ∀ u ≠ v, s'.witch.auctions u = s.witch.auctions u
  cauldron : s'.cauldron = s.cauldron.give v this

theorem auction_eq_ok (h : auction this s ctx v = .ok s') : s.Starts this ctx v s' := by
  simp only [auction, Call.bind_eq_ok, Call.require_eq_ok, Call.pure_eq_ok, Uint.cast_eq_ok,
    Uint.add_eq_ok] at h
  obtain ⟨_, hi, _, hu, sum, hsum, _, -, _, -, start, hstart, rfl⟩ := h
  exact {
    idle     := hi
    under    := hu
    ilks     := rfl
    sum      := by simpa using hsum
    limits   := fun i hi => by simp [hi]
    owner    := by simp
    start    := by simpa using hstart
    auctions := fun u hu => by simp [hu]
    cauldron := rfl
  }

-- The governance functions change neither the auctions nor the collateral under auction.
structure State.Governs (s s' : State) : Prop where
  cauldron : s'.cauldron = s.cauldron
  auctions : s'.witch.auctions = s.witch.auctions
  sum      : ∀ i, (s'.witch.limits i).sum = (s.witch.limits i).sum

theorem point_eq_ok {param : String} {value : Address} (h : point s ctx param value = .ok s') :
    s.Governs s' := by
  simp only [point, Call.bind_eq_ok, Call.pure_eq_ok] at h
  obtain ⟨_, -, _, -, rfl⟩ := h
  exact ⟨rfl, rfl, fun _ => rfl⟩

theorem setIlk_eq_ok {i : Bytes6} {duration : Uint 32} {initialOffer : Uint 64} {line : Uint 96}
    {dust : Uint 24} {dec : Uint 8}
    (h : setIlk s ctx i duration initialOffer line dust dec = .ok s') :
    s.Governs s' ∧ (initialOffer : ℕ) ≤ WAD ∧
    s'.witch.ilks = Function.update s.witch.ilks i ⟨duration, initialOffer⟩ := by
  simp only [setIlk, Call.bind_eq_ok, Call.require_eq_ok, Call.pure_eq_ok] at h
  obtain ⟨_, -, _, ho, rfl⟩ := h
  refine ⟨⟨rfl, rfl, fun j => ?_⟩, ho, rfl⟩
  by_cases hj : j = i <;> simp [hj]

-- Everything that a call of the Witch can do.
inductive State.Effect (this : Address) (s : State) (ctx : Context) (s' : State) : Action → Prop
  | point : s.Governs s' → Effect this s ctx s' (.point param value)
  | setIlk : s.Governs s' → Effect this s ctx s' (.setIlk i duration initialOffer line dust dec)
  | auction {v : Bytes12} : s.Starts this ctx v s' → Effect this s ctx s' (.auction v)
  | buy {v : Bytes12} {art ink : Uint 128} :
    ctx.debtFromBase (s.cauldron.vaults v).seriesId base = .ok art →
    quote s ctx.block v art = .ok ↑ink → s.Sells v art ink s' → Effect this s ctx s' (.buy v base m)
  | payAll {v : Bytes12} {ink : Uint 128} : quote s ctx.block v (s.cauldron.balances v).art = .ok q →
    (ink : ℕ) = min ((s.cauldron.balances v).ink : ℕ) q →
    s.Sells v (s.cauldron.balances v).art ink s' → Effect this s ctx s' (.payAll v m)

theorem exec_eq_ok {a : Action} (h : exec this s ctx a = .ok s') : s.Effect this ctx s' a := by
  cases a <;> simp only [exec, Call.map_eq_ok, Prod.exists, exists_and_right, exists_eq_right] at h
  case point   => exact .point (point_eq_ok h)
  case setIlk  => exact .setIlk (setIlk_eq_ok h).left
  case auction => exact .auction (auction_eq_ok h)
  case buy =>
    obtain ⟨_, h⟩ := h
    have ⟨_, _, hi, _, ha, hq, hs⟩ := buy_eq_ok h
    exact .buy ha (hi ▸ hq) hs
  case payAll =>
    obtain ⟨_, h⟩ := h
    have ⟨_, _, hi, hq, _, hm, hs⟩ := payAll_eq_ok h
    exact .payAll hq (hi ▸ hm) hs

-- Others may do anything in the Cauldron which leaves the vaults of the Witch alone: they keep
-- their owner, their collateral, and the kind of their collateral.
def Untouched (this : Address) (c c' : Cauldron) : Prop :=
  ∀ v, (c.vaults v).owner = this →
    (c'.vaults v).owner = this ∧ (c'.vaults v).ilkId = (c.vaults v).ilkId ∧
    (c'.balances v).ink = (c.balances v).ink

-- The steps of an execution in which all calls of the Witch satisfy `P`.
inductive Step (this : Address) (P : State → Context → Action → Prop) : State → State → Prop
  | call {s s' : State} {ctx : Context} {a : Action} :
    P s ctx a → exec this s ctx a = .ok s' → Step this P s s'
  | roles {s : State} (r : AccessControl) : Step this P s { s with witch.roles := r }
  | other {s : State} {c : Cauldron} :
    Untouched this s.cauldron c → Step this P s { s with cauldron := c }

end OldWitch
