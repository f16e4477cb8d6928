import YieldModel.Lib.Tally
import YieldModel.Witch.Pricing

open Math FixedPoint Execution Tally

namespace OldWitch

variable {this : Address} {s s' : State} {ctx : Context} {v : Bytes12} {i : Bytes6}

-- The collateral of kind `i` which a vault contributes to what is under auction.
def State.auctionedInk (s : State) (i : Bytes6) (v : Bytes12) : ℕ :=
  if 0 < (s.witch.auctions v).start ∧ (s.cauldron.vaults v).ilkId = i then
    (s.cauldron.balances v).ink
  else
    0

-- The current concurrent auctioned collateral.
def State.auctioned (s : State) (i : Bytes6) : ℕ :=
  total (s.auctionedInk i)

-- A vault sells out if the price of its whole debt amounts to its whole collateral. Apart from
-- rounding, this is the case iff all of the collateral is on offer.
def State.SellsOut (s : State) (ctx : Context) (v : Bytes12) : Prop :=
  let ilk_ := s.witch.ilks (s.cauldron.vaults v).ilkId
  let balances_ := s.cauldron.balances v
  (balances_.ink : ℕ) * WAD ≤ balances_.art *
    priceAt balances_.ink balances_.art
      (share ilk_.initialOffer ilk_.duration (s.elapsed ctx.block v))

-- A call leaves no collateral behind if the purchase which repays the rest of a debt sells out.
def LeavesNothing (s : State) (ctx : Context) : Action → Prop
  | .buy v base _ =>
    ctx.debtFromBase (s.cauldron.vaults v).seriesId base = .ok (s.cauldron.balances v).art →
    s.SellsOut ctx v
  | .payAll v _ => s.SellsOut ctx v
  | _ => True

-- The collateral of a vault may only change while the vault belongs to someone else, so vaults
-- under auction have to be owned by the Witch.
structure State.Accounted (this : Address) (s : State) : Prop where
  owned : ∀ v, 0 < (s.witch.auctions v).start → (s.cauldron.vaults v).owner = this
  sum   : ∀ i, (s.witch.limits i).sum = s.auctioned i

theorem State.SellsOut.le_quote {q : ℕ} (h : s.SellsOut ctx v)
    (hq : quote s ctx.block v (s.cauldron.balances v).art = .ok q) :
    (s.cauldron.balances v).ink ≤ q := by
  have ⟨_, _, hq⟩ := quote_eq_ok hq
  rw [hq, Nat.le_div_iff_mul_le WAD_pos]
  exact h

theorem quote_lt {q : ℕ} (h : ¬s.SellsOut ctx v)
    (hq : quote s ctx.block v (s.cauldron.balances v).art = .ok q) :
    q < (s.cauldron.balances v).ink := by
  have ⟨_, _, hq⟩ := quote_eq_ok hq
  rw [hq, Nat.div_lt_iff_lt_mul WAD_pos]
  exact not_le.mp h

-- The end of the auction, or a full initial offer, makes a vault sell out.
theorem State.SellsOut.of_over (ha : 0 < ((s.cauldron.balances v).art : ℕ))
    (h : let ilk_ := s.witch.ilks (s.cauldron.vaults v).ilkId
      (ilk_.initialOffer : ℕ) ≤ WAD ∧ 0 < (ilk_.duration : ℕ) ∧
      ((ilk_.duration : ℕ) ≤ s.elapsed ctx.block v ∨ (ilk_.initialOffer : ℕ) = WAD)) :
    s.SellsOut ctx v := by
  have ⟨ho, hd, h⟩ := h
  simp only [State.SellsOut, share_eq_WAD ho hd h]
  exact le_mul_priceAt_WAD ha

theorem auctionedInk_of_ne (h : (s.cauldron.vaults v).ilkId ≠ i) : s.auctionedInk i v = 0 := by
  simp [State.auctionedInk, h]

theorem State.Sells.auctionedInk_others {art ink : Uint 128} (h : s.Sells v art ink s')
    {u : Bytes12} (hu : u ≠ v) : s'.auctionedInk i u = s.auctionedInk i u := by
  simp only [State.auctionedInk, h.auctions u hu, h.vaults u hu, h.balances u hu]

theorem State.Sells.auctionedInk_other_kind {art ink : Uint 128} (h : s.Sells v art ink s')
    (hi : (s.cauldron.vaults v).ilkId ≠ i) : s'.auctionedInk i v = s.auctionedInk i v := by
  rw [auctionedInk_of_ne hi, auctionedInk_of_ne (h.ilkId ▸ hi)]

-- What a purchase takes out of the auctions of one kind leaves the sum as well, except for the
-- collateral which goes back to the owner of the vault.
theorem State.Sells.balance {art ink : Uint 128} (h : s.Sells v art ink s') (i : Bytes6) :
    s.auctioned i + (s'.witch.limits i).sum = s'.auctioned i + (s.witch.limits i).sum +
    if (s'.cauldron.balances v).art = 0 ∧ (s.cauldron.vaults v).ilkId = i then
      ((s'.cauldron.balances v).ink : ℕ) else 0 := by
  have ht := total_of_agree (f := s'.auctionedInk i) (g := s.auctionedInk i) v
    fun _ hu => h.auctionedInk_others hu
  simp only [State.auctioned]
  by_cases hi : (s.cauldron.vaults v).ilkId = i
  case neg =>
    have : s'.auctionedInk i v = s.auctionedInk i v := h.auctionedInk_other_kind hi
    rw [h.limits i (Ne.symm hi), if_neg fun h => hi h.right]
    omega
  case pos =>
    have hv : s.auctionedInk i v = (s.cauldron.balances v).ink := by
      simp [State.auctionedInk, h.started, hi]
    have := hi ▸ h.sum
    have := h.ink
    by_cases hz : (s'.cauldron.balances v).art = 0
    case pos =>
      have hv' : s'.auctionedInk i v = 0 := by simp [State.auctionedInk, h.ends hz]
      rw [if_pos ⟨hz, hi⟩]
      omega
    case neg =>
      have hv' : s'.auctionedInk i v = (s'.cauldron.balances v).ink := by
        simp [State.auctionedInk, h.goes_on hz, h.started, hi]
      rw [if_neg fun h => hz h.left]
      omega

theorem State.Starts.balance (h : s.Starts this ctx v s') (i : Bytes6) :
    s.auctioned i + (s'.witch.limits i).sum = s'.auctioned i + (s.witch.limits i).sum := by
  have ht := total_of_agree (f := s'.auctionedInk i) (g := s.auctionedInk i) v fun u hu => by
    simp [State.auctionedInk, h.auctions u hu, h.cauldron]
  have hv : s.auctionedInk i v = 0 := by simp [State.auctionedInk, h.idle]
  simp only [State.auctioned]
  by_cases hi : (s.cauldron.vaults v).ilkId = i
  case neg =>
    have : s'.auctionedInk i v = 0 := auctionedInk_of_ne (by simpa [h.cauldron] using hi)
    rw [h.limits i (Ne.symm hi)]
    omega
  case pos =>
    have hp : 0 < (s'.witch.auctions v).start := by
      rw [← Fin.val_pos_iff, h.start]
      exact ctx.block.timestamp_pos
    have hv' : s'.auctionedInk i v = (s.cauldron.balances v).ink := by
      simp [State.auctionedInk, hp, hi, h.cauldron]
    have := hi ▸ h.sum
    omega

theorem State.Governs.auctioned_eq (h : s.Governs s') (i : Bytes6) :
    s'.auctioned i = s.auctioned i :=
  total_congr fun v => by simp [State.auctionedInk, h.cauldron, h.auctions]

theorem auctioned_of_untouched {c : Cauldron} (h : Untouched this s.cauldron c)
    (ho : ∀ v, 0 < (s.witch.auctions v).start → (s.cauldron.vaults v).owner = this) (i : Bytes6) :
    State.auctioned { s with cauldron := c } i = s.auctioned i := by
  refine total_congr fun v => ?_
  by_cases hv : 0 < (s.witch.auctions v).start
  case neg => simp [State.auctionedInk, hv]
  case pos =>
    have ⟨_, hi, hk⟩ := h v (ho v hv)
    simp [State.auctionedInk, hi, hk]

-- The Witch owns the vaults which it auctions.
def State.Owned (this : Address) (s : State) : Prop :=
  ∀ v, 0 < (s.witch.auctions v).start → (s.cauldron.vaults v).owner = this

theorem State.Sells.owned {art ink : Uint 128} (h : s.Sells v art ink s') (ho : s.Owned this) :
    s'.Owned this := by
  intro u hu
  by_cases he : u = v
  case neg => exact h.vaults u he ▸ ho u (h.auctions u he ▸ hu)
  case pos =>
    subst he
    by_cases hz : (s'.cauldron.balances u).art = 0
    case pos => simp [(h.ends hz).left] at hu
    case neg => exact (h.goes_on hz).right ▸ ho u h.started

theorem State.Starts.owned (h : s.Starts this ctx v s') (ho : s.Owned this) : s'.Owned this := by
  intro u hu
  by_cases he : u = v
  case pos => simp [h.cauldron, he]
  case neg =>
    rw [h.cauldron, Cauldron.give_vaults_ne he]
    exact ho u (h.auctions u he ▸ hu)

theorem State.Governs.owned (h : s.Governs s') (ho : s.Owned this) : s'.Owned this := by
  unfold State.Owned
  rw [h.cauldron, h.auctions]
  exact ho

-- A purchase keeps the accounts unless it closes the auction with collateral left in the vault.
theorem State.Sells.accounted {art ink : Uint 128} (h : s.Sells v art ink s')
    (hl : (s'.cauldron.balances v).art = 0 → (s'.cauldron.balances v).ink = 0)
    (ha : s.Accounted this) : s'.Accounted this where
  owned := h.owned ha.owned
  sum i := by
    have hb := h.balance i
    have hs := ha.sum i
    split at hb
    case isTrue hz  =>
      have := congrArg Fin.val (hl hz.left)
      simp only [Fin.val_zero] at this
      omega
    case isFalse hz => omega

theorem State.Starts.accounted (h : s.Starts this ctx v s') (ha : s.Accounted this) :
    s'.Accounted this where
  owned := h.owned ha.owned
  sum i := by
    have hb := h.balance i
    have hs := ha.sum i
    omega

theorem State.Governs.accounted (h : s.Governs s') (ha : s.Accounted this) :
    s'.Accounted this where
  owned := h.owned ha.owned
  sum i := by rw [h.sum, ha.sum, h.auctioned_eq]

-- What is left in a vault which has been sold out.
theorem State.Sells.ink_eq_zero {art ink : Uint 128} (h : s.Sells v art ink s')
    (hi : (s.cauldron.balances v).ink ≤ ink) : (s'.cauldron.balances v).ink = 0 := by
  have := h.ink
  have : ((s.cauldron.balances v).ink : ℕ) ≤ ink := hi
  rw [← Fin.val_eq_zero_iff]
  omega

theorem State.Sells.ink_ne_zero {art ink : Uint 128} (h : s.Sells v art ink s')
    (hi : (ink : ℕ) < (s.cauldron.balances v).ink) : (s'.cauldron.balances v).ink ≠ 0 := by
  have := h.ink
  rw [← Fin.val_ne_zero_iff]
  omega

theorem State.Sells.art_eq_zero {art ink : Uint 128} (h : s.Sells v art ink s')
    (ha : art = (s.cauldron.balances v).art) : (s'.cauldron.balances v).art = 0 := by
  have := h.art
  rw [← Fin.val_eq_zero_iff, ← ha] at *
  omega

theorem State.Sells.art_eq {art ink : Uint 128} (h : s.Sells v art ink s')
    (hz : (s'.cauldron.balances v).art = 0) : art = (s.cauldron.balances v).art := by
  have := h.art
  rw [hz] at this
  exact Fin.ext (by simpa using this)

theorem exec_accounted {a : Action} (hl : LeavesNothing s ctx a) (h : exec this s ctx a = .ok s')
    (ha : s.Accounted this) : s'.Accounted this := by
  replace h := exec_eq_ok h
  cases h
  case point h   => exact h.accounted ha
  case setIlk h  => exact h.accounted ha
  case auction h => exact h.accounted ha
  case buy art ink hd hq h =>
    refine h.accounted (fun hz => ?_) ha
    have hr := h.art_eq hz
    exact h.ink_eq_zero <| (hl (hr ▸ hd)).le_quote (hr ▸ hq)
  case payAll ink hq hm h =>
    refine h.accounted (fun _ => h.ink_eq_zero ?_) ha
    have := hl.le_quote hq
    rw [Fin.le_def]
    omega

-- The condition is exact: a call which leaves collateral behind ruins the accounts.
theorem State.Sells.not_accounted {art ink : Uint 128} (h : s.Sells v art ink s')
    (hz : (s'.cauldron.balances v).art = 0) (hi : (s'.cauldron.balances v).ink ≠ 0)
    (ha : s.Accounted this) : ¬s'.Accounted this := by
  intro ha'
  have hb := h.balance (s.cauldron.vaults v).ilkId
  have hs := ha.sum (s.cauldron.vaults v).ilkId
  have hs' := ha'.sum (s.cauldron.vaults v).ilkId
  rw [if_pos ⟨hz, rfl⟩] at hb
  have := Nat.pos_of_ne_zero (Fin.val_ne_zero_iff.mpr hi)
  omega

theorem exec_accounted_iff {a : Action} (h : exec this s ctx a = .ok s') (ha : s.Accounted this) :
    s'.Accounted this ↔ LeavesNothing s ctx a := by
  refine ⟨fun ha' => ?_, fun hl => exec_accounted hl h ha⟩
  replace h := exec_eq_ok h
  cases h <;> simp only [LeavesNothing]
  case buy art ink hd hq h =>
    intro hr
    injection hd ▸ hr with hr
    by_contra hs
    exact h.not_accounted (h.art_eq_zero hr) (h.ink_ne_zero (quote_lt hs (hr ▸ hq))) ha ha'
  case payAll ink hq hm h =>
    by_contra hs
    have hi : (ink : ℕ) < _ := hm ▸ min_lt_of_right_lt (quote_lt hs hq)
    exact h.not_accounted (h.art_eq_zero rfl) (h.ink_ne_zero hi) ha ha'

theorem step_accounted : Preserves (Step this LeavesNothing) (·.Accounted this) := by
  intro s _ stp ha
  cases stp
  case call hl h => exact exec_accounted hl h ha
  case roles     => exact ⟨ha.owned, ha.sum⟩
  case other c h =>
    refine ⟨fun v hv => (h v (ha.owned v hv)).left, fun i => ?_⟩
    exact (ha.sum i).trans (auctioned_of_untouched h ha.owned i).symm

theorem init_accounted {sender ladle : Address} {c : Cauldron} :
    (init sender ladle c).Accounted this where
  owned v hv := by simp [init] at hv
  sum i := by
    rw [State.auctioned, total_eq_zero fun v => by simp [State.auctionedInk, init]]
    rfl

-- While no collateral is left behind, the sum of each kind of collateral is what is under auction.
theorem limits_sum_eq_auctioned {sender ladle : Address} {c : Cauldron}
    (e : Steps (Step this LeavesNothing) (init sender ladle c) s) (i : Bytes6) :
    (s.witch.limits i).sum = s.auctioned i :=
  step_accounted.steps e init_accounted |>.sum i

instance : Decidable (s.SellsOut ctx v) :=
  inferInstanceAs (Decidable (_ ≤ _))

instance {a : Action} : Decidable (LeavesNothing s ctx a) :=
  match a with
  | .buy ..                                   => inferInstanceAs (Decidable (_ → _))
  | .payAll v _                               => inferInstanceAs (Decidable (s.SellsOut ctx v))
  | .point .. | .setIlk .. | .auction _       => inferInstanceAs (Decidable True)

-- Executes a list of calls, as long as they satisfy `P`.
def execAll (this : Address) (P : State → Context → Action → Prop) [∀ s ctx a, Decidable (P s ctx a)]
    (s : State) (calls : List (Context × Action)) : Call State :=
  calls.foldlM (fun s (ctx, a) => do
    Call.require (P s ctx a) "Condition not met"
    exec this s ctx a) s

theorem execAll_steps {P : State → Context → Action → Prop} [∀ s ctx a, Decidable (P s ctx a)]
    {calls : List (Context × Action)} (h : execAll this P s calls = .ok s') :
    Steps (Step this P) s s' := by
  induction calls generalizing s
  case nil => cases h; exact .refl
  case cons call calls hi =>
    simp only [execAll, List.foldlM_cons, Call.bind_eq_ok, Call.require_eq_ok] at h
    obtain ⟨_, ⟨_, hp, hc⟩, h⟩ := h
    exact .head (.call hp hc) (hi h)

namespace Leftover

-- Half of the collateral is on offer when an auction starts, and the rest within an hour.
def early : Context := .plain ⟨1, Nat.one_pos⟩
def late : Context := .plain ⟨3601, by decide⟩

def created : State :=
  init 7 0 ⟨fun _ => ⟨1, 0, 0⟩, fun _ => ⟨100, 100⟩⟩

def governed : State :=
  { created with witch.roles := created.witch.roles._grantRole selector.setIlk 7 }

def opening : List (Context × Action) :=
  [(early, .setIlk 0 3600 500000000000000000 1000 0 0), (early, .auction 0)]

def soldEarly : Call State :=
  execAll 2 (fun _ _ _ => True) governed (opening ++ [(early, .payAll 0 50)])

def soldLate : Call State :=
  execAll 2 LeavesNothing governed (opening ++ [(early, .buy 0 40 20), (late, .payAll 0 80)])

end Leftover

theorem limits_sum_eq_auctioned_soldLate :
    ∃ s, Leftover.soldLate = .ok s ∧ (s.witch.limits 0).sum = s.auctioned 0 := by
  have hl : (fun s => ((s.witch.limits 0).sum : ℕ)) <$> Leftover.soldLate = .ok 0 := by decide
  obtain ⟨s, hs, _⟩ := Call.map_eq_ok.mp hl
  exact ⟨s, hs, limits_sum_eq_auctioned (.head (.roles _) (execAll_steps hs)) 0⟩

-- If all of the debt is paid at the start, half of the collateral stays in the sum forever.
theorem limits_sum_ne_auctioned : ¬∀ (this sender ladle : Address) (c : Cauldron) (s : State),
    Steps (Step this fun _ _ _ => True) (init sender ladle c) s →
    ∀ i, (s.witch.limits i).sum = s.auctioned i := by
  intro h
  have hl : (fun s => ((s.witch.limits 0).sum : ℕ)) <$> Leftover.soldEarly = .ok 50 := by decide
  have ha : (fun s => s.witch.auctions) <$> Leftover.soldEarly =
      .ok (Function.update (Function.update (fun _ => ⟨0, 0⟩) 0 ⟨1, 1⟩) 0 ⟨0, 0⟩) := rfl
  obtain ⟨s, hs, hl⟩ := Call.map_eq_ok.mp hl
  obtain ⟨_, hs', ha⟩ := Call.map_eq_ok.mp ha
  cases hs.symm.trans hs'
  have e : Steps (Step 2 fun _ _ _ => True) Leftover.created s :=
    .head (.roles _) (execAll_steps hs)
  have hz : s.auctioned 0 = 0 := by
    refine total_eq_zero fun v => ?_
    by_cases hv : v = 0 <;> simp [State.auctionedInk, ha, hv]
  have := h _ _ _ _ _ e 0
  omega

end OldWitch
