import YieldModel.Witch.Accounting

open Math FixedPoint Execution Tally

namespace OldWitch

variable {this : Address} {s s' : State} {ctx : Context} {v : Bytes12}

-- The other contracts accept the calls which `payAll` makes: the Cauldron writes the vault down and
-- values its debt, and the joins of both assets exist and move what they are asked to.
structure Context.Accepts (ctx : Context) (s : State) (v : Bytes12) : Prop where
  slurp    : ∀ ink, ink ≤ (s.cauldron.balances v).ink →
             ctx.slurp v ink (s.cauldron.balances v).art = .ok ()
  base     : ∃ base, ctx.debtToBase (s.cauldron.vaults v).seriesId (s.cauldron.balances v).art =
             .ok base
  ilkJoin  : ctx.joins s.witch.ladle (s.cauldron.vaults v).ilkId ≠ 0
  exit     : ∀ ink, ink ≤ (s.cauldron.balances v).ink →
             ctx.exit (ctx.joins s.witch.ladle (s.cauldron.vaults v).ilkId) ctx.sender ink = .ok ()
  baseJoin : ctx.joins s.witch.ladle (ctx.series (s.cauldron.vaults v).seriesId).baseId ≠ 0
  join     : ∀ base, ctx.join
             (ctx.joins s.witch.ladle (ctx.series (s.cauldron.vaults v).seriesId).baseId)
             ctx.sender base = .ok ()

theorem Context.Accepts.settle_ok {ink base : Uint 128} (h : ctx.Accepts s v)
    (hi : ink ≤ (s.cauldron.balances v).ink) :
    settle ctx s.witch.ladle ctx.sender (s.cauldron.vaults v).ilkId
      (ctx.series (s.cauldron.vaults v).seriesId).baseId ink base = .ok () := by
  simp only [settle, Call.bind_eq_ok]
  refine ⟨(), ?_, ?_⟩
  · split
    case isTrue  =>
      simp only [Call.bind_eq_ok, Call.require_eq_ok]
      exact ⟨(), h.ilkJoin, h.exit ink hi⟩
    case isFalse => rfl
  · split
    case isTrue  =>
      simp only [Call.bind_eq_ok, Call.require_eq_ok]
      exact ⟨(), h.baseJoin, h.join base⟩
    case isFalse => rfl

-- What keeps `payAll` from failing in its own arithmetic: the collateral under auction is still in
-- the sum, and no initial offer is above 100%.
structure State.Reserved (this : Address) (s : State) : Prop where
  owned : s.Owned this
  sum   : ∀ i, s.auctioned i ≤ (s.witch.limits i).sum
  offer : ∀ i, ((s.witch.ilks i).initialOffer : ℕ) ≤ WAD

theorem State.Sells.reserved {art ink : Uint 128} (h : s.Sells v art ink s')
    (hr : s.Reserved this) : s'.Reserved this where
  owned := h.owned hr.owned
  sum i := by
    have hb := h.balance i
    have hs := hr.sum i
    omega
  offer := h.ilks ▸ hr.offer

theorem State.Starts.reserved (h : s.Starts this ctx v s') (hr : s.Reserved this) :
    s'.Reserved this where
  owned := h.owned hr.owned
  sum i := by
    have hb := h.balance i
    have hs := hr.sum i
    omega
  offer := h.ilks ▸ hr.offer

theorem State.Governs.reserved (h : s.Governs s')
    (ho : ∀ i, ((s'.witch.ilks i).initialOffer : ℕ) ≤ WAD) (hr : s.Reserved this) :
    s'.Reserved this where
  owned := h.owned hr.owned
  sum i := by rw [h.auctioned_eq, h.sum]; exact hr.sum i
  offer := ho

theorem exec_reserved {a : Action} (h : exec this s ctx a = .ok s') (hr : s.Reserved this) :
    s'.Reserved this := by
  cases a <;> simp only [exec, Call.map_eq_ok, Prod.exists, exists_and_right, exists_eq_right] at h
  case auction => exact (auction_eq_ok h).reserved hr
  case point =>
    refine (point_eq_ok h).reserved ?_ hr
    simp only [point, Call.bind_eq_ok, Call.pure_eq_ok] at h
    obtain ⟨_, -, _, -, rfl⟩ := h
    exact hr.offer
  case setIlk i _ _ _ _ _ =>
    obtain ⟨hg, ho, hi⟩ := setIlk_eq_ok h
    refine hg.reserved (fun j => ?_) hr
    by_cases hj : j = i
    case pos => simpa [hi, hj] using ho
    case neg => simpa [hi, hj] using hr.offer j
  case buy =>
    obtain ⟨_, h⟩ := h
    obtain ⟨_, _, _, _, _, _, hs⟩ := buy_eq_ok h
    exact hs.reserved hr
  case payAll =>
    obtain ⟨_, h⟩ := h
    obtain ⟨_, _, _, _, _, _, hs⟩ := payAll_eq_ok h
    exact hs.reserved hr

theorem step_reserved {P : State → Context → Action → Prop} :
    Preserves (Step this P) (·.Reserved this) := by
  intro s _ stp hr
  cases stp
  case call _ h => exact exec_reserved h hr
  case roles    => exact ⟨hr.owned, hr.sum, hr.offer⟩
  case other c h =>
    refine ⟨fun v hv => (h v (hr.owned v hv)).left, fun i => ?_, hr.offer⟩
    exact (auctioned_of_untouched h hr.owned i).trans_le (hr.sum i)

theorem init_reserved {sender ladle : Address} {c : Cauldron} :
    (init sender ladle c).Reserved this where
  owned   := init_accounted.owned
  sum i   :=
    have h : (init sender ladle c).Accounted this := init_accounted
    (h.sum i).ge
  offer _ := Nat.zero_le _

-- The sum covers the collateral of each vault under auction.
theorem State.Reserved.ink_le (hr : s.Reserved this) (hv : 0 < (s.witch.auctions v).start) :
    ((s.cauldron.balances v).ink : ℕ) ≤ (s.witch.limits (s.cauldron.vaults v).ilkId).sum := by
  have hk : s.auctionedInk (s.cauldron.vaults v).ilkId v = (s.cauldron.balances v).ink := by
    simp [State.auctionedInk, hv]
  exact hk ▸ (Tally.le_total _ v).trans (hr.sum _)

theorem payAll_ok (hr : s.Reserved this) (hv : 0 < (s.witch.auctions v).start)
    (ha : 0 < (s.cauldron.balances v).art) (hs : (s.witch.auctions v).start ≤ ctx.block.timestamp)
    (ht : ctx.block.timestamp < 2 ^ 32) (hx : ctx.Accepts s v)
    (hd : (s.witch.ilks (s.cauldron.vaults v).ilkId).duration ≠ 0) :
    ∃ r, payAll s ctx v 0 = .ok r := by
  have hp := Nat.pos_of_ne_zero (Fin.val_ne_zero_iff.mpr hd)
  have ht' : ((s.witch.auctions v).start : ℕ) ≤ ctx.block.timestamp % 2 ^ 32 := by
    rwa [Nat.mod_eq_of_lt ht]
  obtain ⟨q, hq⟩ := quote_ok ha hp (hr.offer _) ht' le_rfl
  simp only [quote, Call.bind_eq_ok] at hq
  obtain ⟨elapsed, he, price, hp, hw⟩ := hq
  obtain ⟨base, hb⟩ := hx.base
  -- The amount is capped by the collateral of the vault, which is in the sum.
  let n := if (s.cauldron.balances v).ink < q then ((s.cauldron.balances v).ink : ℕ) else q
  have hn : n ≤ (s.cauldron.balances v).ink := by
    simp only [n]
    split <;> omega
  let ink : Uint 128 := ⟨n, hn.trans_lt (Fin.isLt _)⟩
  have hi : ink ≤ (s.cauldron.balances v).ink := hn
  obtain ⟨sum, hsum⟩ := Uint.exists_sub (show ink ≤ _ from hn.trans (hr.ink_le hv))
  obtain ⟨left, hl⟩ := Uint.exists_sub hi
  have hc : ∃ c, s.cauldron.slurp v ink (s.cauldron.balances v).art = .ok c := by
    simp only [Cauldron.slurp, Call.bind_eq_ok, Uint.sub_eq_ok, Call.pure_eq_ok]
    exact ⟨_, left, hl, 0, Nat.zero_add _, rfl⟩
  obtain ⟨c, hc⟩ := hc
  simp only [payAll, Call.bind_eq_ok, Call.require_eq_ok, Call.pure_eq_ok, Uint.cast_eq_ok]
  exact ⟨_, (), hv, (), ha, elapsed, he, price, hp, q, hw, (), Nat.zero_le _, ink, rfl, _,
    release_eq_ok.mpr ⟨sum, hsum, rfl⟩, (), hx.slurp ink hi, c, hc, base, hb, (),
    hx.settle_ok hi, rfl⟩

-- Apart from the other contracts, it depends on the duration only whether a vault can be redeemed.
theorem payAll_isOk_iff {sender ladle : Address} {c : Cauldron}
    (e : Steps (Step this fun _ _ _ => True) (init sender ladle c) s)
    (hv : 0 < (s.witch.auctions v).start) (ha : 0 < (s.cauldron.balances v).art)
    (hs : (s.witch.auctions v).start ≤ ctx.block.timestamp) (ht : ctx.block.timestamp < 2 ^ 32)
    (hx : ctx.Accepts s v) :
    (payAll s ctx v 0).isOk ↔ (s.witch.ilks (s.cauldron.vaults v).ilkId).duration ≠ 0 := by
  constructor
  case mp =>
    intro h
    obtain ⟨⟨_, _⟩, h⟩ := Call.exists_of_isOk h
    have ⟨_, _, _, hq, _⟩ := payAll_eq_ok h
    have ⟨hd, _⟩ := quote_eq_ok hq
    exact Fin.val_ne_zero_iff.mp hd.ne'
  case mpr =>
    intro hd
    obtain ⟨_, h⟩ := payAll_ok (step_reserved.steps e init_reserved) hv ha hs ht hx hd
    rw [h]
    rfl

namespace Stuck

def block : Context :=
  .plain ⟨1, Nat.one_pos⟩

def created : State :=
  init 7 0 ⟨fun _ => ⟨1, 0, 0⟩, fun _ => ⟨100, 100⟩⟩

def governed : State :=
  { created with witch.roles := created.witch.roles._grantRole selector.setIlk 7 }

def opened (duration : Uint 32) : Call State :=
  execAll 2 (fun _ _ _ => True) governed
    [(block, .setIlk 0 duration 500000000000000000 1000 0 0), (block, .auction 0)]

end Stuck

theorem Context.plain_accepts (block : Block) : (Context.plain block).Accepts s v where
  slurp _ _ := rfl
  base      := ⟨_, rfl⟩
  ilkJoin   := Fin.ne_of_val_ne Nat.one_ne_zero
  exit _ _  := rfl
  baseJoin  := Fin.ne_of_val_ne Nat.one_ne_zero
  join _    := rfl

theorem payAll_isOk_iff_hour : ∃ s, Stuck.opened 3600 = .ok s ∧
    ((payAll s Stuck.block 0 0).isOk ↔ (s.witch.ilks (s.cauldron.vaults 0).ilkId).duration ≠ 0) := by
  have h : (fun s => ((s.witch.auctions 0).start, (s.cauldron.balances 0).art)) <$>
      Stuck.opened 3600 = .ok (1, 100) := by decide
  obtain ⟨s, hs, h⟩ := Call.map_eq_ok.mp h
  injection h with hv ha
  exact ⟨s, hs, payAll_isOk_iff (.head (.roles _) (execAll_steps hs)) (hv ▸ by decide)
    (ha ▸ by decide) (hv ▸ le_rfl) (by decide) (Context.plain_accepts _)⟩

-- The duration of zero, which is accepted, leaves a vault under auction forever.
theorem payAll_stuck : ¬∀ (this sender ladle : Address) (c : Cauldron) (s : State) (v : Bytes12)
    (ctx : Context), Steps (Step this fun _ _ _ => True) (init sender ladle c) s →
    0 < (s.witch.auctions v).start → 0 < (s.cauldron.balances v).art →
    (s.witch.auctions v).start ≤ ctx.block.timestamp → ctx.block.timestamp < 2 ^ 32 →
    ctx.Accepts s v → (payAll s ctx v 0).isOk := by
  intro hn
  have h : (fun s => ((s.witch.auctions 0).start, (s.cauldron.balances 0).art,
      (payAll s Stuck.block 0 0).isOk)) <$> Stuck.opened 0 = .ok (1, 100, false) := by decide
  obtain ⟨s, hs, h⟩ := Call.map_eq_ok.mp h
  injection h with hv h
  injection h with ha hf
  have := hn 2 7 0 _ s 0 Stuck.block (.head (.roles _) (execAll_steps hs)) (hv ▸ by decide)
    (ha ▸ by decide) (hv ▸ le_rfl) (by decide) (Context.plain_accepts _)
  exact absurd this (by simp [hf])

end OldWitch
