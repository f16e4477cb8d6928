import YieldModel.Liquidator.Liquidations
import YieldModel.Witch.Pricing

-- The share of the collateral on offer in the eyes of the bot, and on the chain.

namespace OldWitch

open Math

-- The share of the collateral which `inkPrice` offers, in units of `WAD`.
def term2 (initialOffer_ duration_ elapsed : ℕ) : Call ℕ := do
  let dividend2 := if duration_ < elapsed then duration_ else elapsed
  let divisor2 := duration_
  let rest ← Uint.diff WAD initialOffer_
  let ratio ← wdivup dividend2 divisor2
  let growth ← wmulup rest ratio
  let term2 ← Uint.cast 256 (initialOffer_ + growth)
  return term2

theorem inkPrice_eq_term2 (balances : DataTypes.Balances) (initialOffer_ duration_ elapsed : ℕ) :
    inkPrice balances initialOffer_ duration_ elapsed = (do
      let term1 ← wdivup balances.ink balances.art
      let term2 ← term2 initialOffer_ duration_ elapsed
      wmulup term1 term2) := by
  simp only [inkPrice, term2, bind_assoc, pure_bind]

variable {offer elapsed t : ℕ}

theorem term2_eq_ok {duration : ℕ} (h : term2 offer duration elapsed = .ok t) :
    t = share offer duration elapsed := by
  simp only [term2, Call.bind_eq_ok, wdivup_eq_ok, wmulup_eq_ok, Uint.diff_eq_ok, Uint.cast_eq_ok,
    Call.pure_eq_ok] at h
  obtain ⟨rest, hr, _, ⟨-, -, rfl⟩, _, ⟨-, rfl⟩, _, ht, rfl⟩ := h
  have he : (if duration < elapsed then duration else elapsed) = min duration elapsed := by
    rw [min_def]
    split <;> split <;> omega
  have hr : rest = WAD - offer := by omega
  rw [share, ht, he, hr]

theorem term2_ok {duration : Uint 32} (elapsed : ℕ) (ho : offer ≤ WAD) (hd : 0 < (duration : ℕ)) :
    term2 offer duration elapsed = .ok (share offer duration elapsed) := by
  have ha : 0 < ((⟨1, 1⟩ : DataTypes.Balances).art : ℕ) := by decide
  have ⟨price, hp⟩ := inkPrice_ok elapsed ha hd ho
  simp only [inkPrice_eq_term2, Call.bind_eq_ok] at hp
  obtain ⟨_, -, t, ht, -⟩ := hp
  rw [ht, term2_eq_ok ht]

end OldWitch

namespace YieldLiquidator.Liquidator

open OldWitch Math FixedPoint

-- The computation of `currentOffer` in a build which checks its arithmetic.
def checkedOffer (now auctionStart duration initialOffer : U64) : Call (Result U16) :=
  if now < auctionStart then
    return .error .constructorError
  else if (1000000000000000000 : U64) < initialOffer then
    return .error .constructorError
  else do
    let initialOfferPct ← Uint.div initialOffer (10000000000000000 : U64)
    let timeSinceAuctionStart ← Uint.sub now auctionStart
    if duration ≤ timeSinceAuctionStart then
      return .ok 100
    else
      let rest ← Uint.sub 100 initialOfferPct
      let product ← Uint.mul timeSinceAuctionStart rest
      let quotient ← Uint.div product duration
      let offer ← Uint.add quotient initialOfferPct
      let offer ← Uint.cast 16 offer
      return .ok offer

-- The offer in percent, `t` seconds after the start of an auction.
def offerPct (initialOffer duration t : ℕ) : ℕ :=
  if duration ≤ t then 100
  else t * (100 - initialOffer / 10 ^ 16) / duration + initialOffer / 10 ^ 16

section Percent

variable {x d t t' : ℕ}

theorem initialOffer_div_le (hx : x ≤ WAD) : x / 10 ^ 16 ≤ 100 := by
  have hW : WAD = 10 ^ 18 := rfl
  omega

theorem offerPct_of_lt (h : t < d) :
    offerPct x d t = t * (100 - x / 10 ^ 16) / d + x / 10 ^ 16 :=
  if_neg h.not_ge

theorem offerPct_le (hx : x ≤ WAD) : offerPct x d t ≤ 100 := by
  have hp := initialOffer_div_le hx
  unfold offerPct
  split
  case isTrue  => exact le_rfl
  case isFalse h =>
    have hq : t * (100 - x / 10 ^ 16) / d ≤ 100 - x / 10 ^ 16 := by
      rw [mul_comm]
      exact Nat.div_le_of_le_mul (mul_comm d _ ▸ Nat.mul_le_mul_left _ (not_le.mp h).le)
    omega

theorem offerPct_mono (hx : x ≤ WAD) (h : t ≤ t') : offerPct x d t ≤ offerPct x d t' := by
  by_cases ht : t' < d
  case pos =>
    rw [offerPct_of_lt ht, offerPct_of_lt (h.trans_lt ht)]
    exact Nat.add_le_add_right (Nat.div_le_div_right (Nat.mul_le_mul_right _ h)) _
  case neg =>
    rw [show offerPct x d t' = 100 from if_pos (not_lt.mp ht)]
    exact offerPct_le hx

-- The percentage of the exact share, with the initial offer in percent.
theorem exactShare_mul_100 (hd : 0 < d) (h : t < d) :
    100 * exactShare ℚ x d t * d = x / 10 ^ 16 * (d - t) + 100 * t := by
  have hd' : (d : ℚ) ≠ 0 := by exact_mod_cast hd.ne'
  have hW : (WAD : ℚ) = 10 ^ 18 := by norm_num [WAD]
  rw [exactShare, min_eq_right h.le, hW]
  field_simp
  ring

-- Both truncations lose less than one point.
theorem offerPct_bounds (hx : x ≤ WAD) (h : t < d) :
    (offerPct x d t : ℚ) ≤ 100 * exactShare ℚ x d t ∧
    100 * exactShare ℚ x d t ≤ offerPct x d t + 2 - 1 / d := by
  have hd : 0 < d := t.zero_le.trans_lt h
  have hd' : (0 : ℚ) < d := by exact_mod_cast hd
  have ht : (0 : ℚ) ≤ d - t := sub_nonneg.mpr (by exact_mod_cast h.le)
  have he := exactShare_mul_100 (x := x) hd h
  have hq := Nat.div_mul_le_self (t * (100 - x / 10 ^ 16)) d
  have hq' := Nat.succ_le_of_lt (Nat.lt_mul_div_succ (t * (100 - x / 10 ^ 16)) hd)
  have hl : (x / 10 ^ 16 : ℕ) * 10 ^ 16 ≤ x := Nat.div_mul_le_self ..
  have hu : x ≤ ((x / 10 ^ 16 : ℕ) + 1) * 10 ^ 16 := by omega
  have hp := initialOffer_div_le hx
  rw [offerPct_of_lt h]
  generalize exactShare ℚ x d t = e at *
  generalize t * (100 - x / 10 ^ 16) / d = q at *
  generalize x / 10 ^ 16 = p at *
  have hq : (q : ℚ) * d ≤ t * (100 - p) := by
    rw [← Nat.cast_ofNat, ← Nat.cast_sub hp]
    exact_mod_cast hq
  have hq' : (t : ℚ) * (100 - p) + 1 ≤ d * (q + 1) := by
    rw [← Nat.cast_ofNat, ← Nat.cast_sub hp]
    exact_mod_cast hq'
  have hl : (p : ℚ) ≤ x / 10 ^ 16 := by
    rw [le_div_iff₀ (by positivity)]
    exact_mod_cast hl
  have hu : (x : ℚ) / 10 ^ 16 ≤ p + 1 := by
    rw [div_le_iff₀ (by positivity)]
    exact_mod_cast hu
  have hl := mul_le_mul_of_nonneg_right hl ht
  have hu := mul_le_mul_of_nonneg_right hu ht
  push_cast
  constructor
  case left  =>
    refine le_of_mul_le_mul_right ?_ hd'
    linarith
  case right =>
    have ht : (0 : ℚ) ≤ t := t.cast_nonneg
    have hi : (1 : ℚ) / d * d = 1 := div_mul_cancel₀ _ hd'.ne'
    refine le_of_mul_le_mul_right ?_ hd'
    linarith

-- The rounding of the share on the chain is finer than a second of an auction.
theorem offerPct_share (hx : x ≤ WAD) (hd : 0 < d) (hl : d < 2 ^ 32) (t : ℕ) :
    offerPct x d t * WAD ≤ 100 * share x d t ∧
    100 * share x d t < (offerPct x d t + 2) * WAD := by
  by_cases h : t < d
  case neg =>
    rw [show offerPct x d t = 100 from if_pos (not_lt.mp h),
      share_eq_WAD hx hd (.inl (not_lt.mp h))]
    exact ⟨le_rfl, Nat.mul_lt_mul_of_pos_right (by decide) WAD_pos⟩
  case pos =>
    have hd' : (0 : ℚ) < d := by exact_mod_cast hd
    have hW : (WAD : ℚ) = 10 ^ 18 := by norm_num [WAD]
    obtain ⟨hb, hb'⟩ := offerPct_bounds hx h
    have hs := exactShare_le_share (K := ℚ) t hx hd
    have hs' := share_lt_exactShare (K := ℚ) t hx hd
    have hi : 1 / 2 ^ 32 ≤ 1 / (d : ℚ) :=
      one_div_le_one_div_of_le hd' (by exact_mod_cast hl.le)
    rw [hW] at hs hs'
    constructor
    case left  =>
      have : (offerPct x d t : ℚ) * WAD ≤ 100 * share x d t := by
        rw [hW]
        linarith
      exact_mod_cast this
    case right =>
      have : (100 : ℚ) * share x d t < (offerPct x d t + 2) * WAD := by
        rw [hW]
        linarith
      exact_mod_cast this

end Percent

variable {now now' auctionStart duration initialOffer : U64} {o : U16}

theorem checkedOffer_ok (hn : auctionStart ≤ now) (ho : (initialOffer : ℕ) ≤ WAD)
    (hl : (duration : ℕ) < 2 ^ 32) :
    ∃ o : U16, (o : ℕ) = offerPct initialOffer duration (now - auctionStart) ∧
    checkedOffer now auctionStart duration initialOffer = .ok (.ok o) := by
  have hW : WAD = 10 ^ 18 := rfl
  have hW' : ((1000000000000000000 : U64) : ℕ) = 10 ^ 18 := rfl
  have hp := initialOffer_div_le ho
  have hlt : (initialOffer / 10 ^ 16 : ℕ) < 2 ^ 64 := by omega
  have hs : (now - auctionStart : ℕ) < 2 ^ 64 := (Nat.sub_le _ _).trans_lt now.isLt
  have hd : Uint.div initialOffer (10000000000000000 : U64) =
      .ok ⟨initialOffer / 10 ^ 16, hlt⟩ := Uint.div_eq_ok.mpr ⟨by decide, rfl⟩
  have ht : Uint.sub now auctionStart = .ok ⟨now - auctionStart, hs⟩ :=
    Uint.sub_eq_ok.mpr (Nat.sub_add_cancel hn)
  unfold checkedOffer
  rw [if_neg hn.not_gt, if_neg (not_lt.mpr (Fin.le_def.mpr (by omega)))]
  simp only [hd, ht, Call.bind_eq_ok, Except.ok.injEq, exists_eq_left']
  by_cases h : (duration : ℕ) ≤ now - auctionStart
  case pos =>
    refine ⟨100, (if_pos h).symm, ?_⟩
    rw [if_pos (Fin.le_def.mpr h)]
    rfl
  case neg =>
    have hq := offerPct_le (d := duration) (t := now - auctionStart) ho
    rw [offerPct_of_lt (not_le.mp h)] at hq ⊢
    rw [if_neg (fun h' => h (Fin.le_def.mp h'))]
    generalize (initialOffer : ℕ) / 10 ^ 16 = p at *
    generalize (now - auctionStart : ℕ) = t at *
    have hm : t * (100 - p) ≤ 2 ^ 32 * 100 := Nat.mul_le_mul (by omega) (by omega)
    refine ⟨⟨t * (100 - p) / duration + p, by omega⟩, rfl, ?_⟩
    simp only [Call.bind_eq_ok, Call.pure_eq_ok, Uint.sub_eq_ok, Uint.mul_eq_ok, Uint.div_eq_ok,
      Uint.add_eq_ok, Uint.cast_eq_ok]
    exact ⟨⟨100 - p, by omega⟩, Nat.sub_add_cancel hp, ⟨t * (100 - p), by omega⟩, rfl,
      ⟨t * (100 - p) / duration, by omega⟩, ⟨by omega, rfl⟩,
      ⟨t * (100 - p) / duration + p, by omega⟩, rfl, _, rfl, rfl⟩

theorem currentOffer_of_checked (h : checkedOffer now auctionStart duration initialOffer =
    .ok (.ok o)) : currentOffer now auctionStart duration initialOffer = .ok o := by
  unfold checkedOffer at h
  unfold currentOffer
  by_cases hn : now < auctionStart
  case pos => simp [hn, pure, Except.pure] at h
  by_cases ho : (1000000000000000000 : U64) < initialOffer
  case pos => simp [hn, ho, pure, Except.pure] at h
  simp only [if_neg hn, if_neg ho, Call.bind_eq_ok] at h ⊢
  obtain ⟨_, hd, _, hs, h⟩ := h
  obtain rfl := Uint.div_of_ok hd
  obtain rfl := Uint.sub_of_ok hs
  split at h
  case isTrue ht =>
    cases h
    rw [if_pos ht]
  case isFalse ht =>
    simp only [Call.bind_eq_ok, Call.pure_eq_ok, Except.ok.injEq] at h
    obtain ⟨_, hr, _, hm, _, hq, _, ha, _, hc, rfl⟩ := h
    obtain rfl := Uint.sub_of_ok hr
    obtain rfl := Uint.mul_of_ok hm
    obtain rfl := Uint.div_of_ok hq
    obtain rfl := Uint.add_of_ok ha
    have hc := Uint.cast_eq_ok.mp hc
    rw [if_neg ht]
    simp only [← hc]
    rw [dif_pos (Fin.isLt _)]

-- An offer is returned for the times and initial offers which make sense.
theorem currentOffer_eq_ok (hl : (duration : ℕ) < 2 ^ 32) :
    currentOffer now auctionStart duration initialOffer = .ok o ↔
    auctionStart ≤ now ∧ (initialOffer : ℕ) ≤ WAD ∧
    (o : ℕ) = offerPct initialOffer duration (now - auctionStart) := by
  have hW : ((1000000000000000000 : U64) : ℕ) = WAD := rfl
  by_cases hn : now < auctionStart
  case pos => simp [currentOffer, hn]
  by_cases ho : (1000000000000000000 : U64) < initialOffer
  case pos =>
    have : ¬(initialOffer : ℕ) ≤ WAD := not_le.mpr (hW ▸ Fin.lt_def.mp ho)
    simp [currentOffer, hn, ho, this]
  have hn := not_lt.mp hn
  have ho : (initialOffer : ℕ) ≤ WAD := hW ▸ Fin.le_def.mp (not_lt.mp ho)
  have ⟨o', hv, hc⟩ := checkedOffer_ok hn ho hl
  rw [currentOffer_of_checked hc]
  simp [hn, ho, ← hv, Fin.ext_iff, eq_comm]

theorem currentOffer_tracks {duration : U32}
    (h : currentOffer now auctionStart (Uint.truncate 64 duration) initialOffer = .ok o) :
    checkedOffer now auctionStart (Uint.truncate 64 duration) initialOffer = .ok (.ok o) ∧
    o ≤ 100 ∧
    (∀ now' ≥ now, ∃ o' ≥ o,
      currentOffer now' auctionStart (Uint.truncate 64 duration) initialOffer = .ok o') ∧
    (0 < duration → ∃ share, term2 initialOffer duration (now - auctionStart : ℕ) = .ok share ∧
      o * WAD ≤ 100 * share ∧ 100 * share < (o + 2) * WAD) := by
  have hv : ((Uint.truncate 64 duration : U64) : ℕ) = duration :=
    Uint.truncate_val_of_lt (duration.isLt.trans (by decide))
  have hl : ((Uint.truncate 64 duration : U64) : ℕ) < 2 ^ 32 := hv.trans_lt duration.isLt
  have ⟨hn, ho, he⟩ := (currentOffer_eq_ok hl).mp h
  refine ⟨?checked, ?range, ?mono, ?tracks⟩
  case checked =>
    have ⟨o', hv, hc⟩ := checkedOffer_ok hn ho hl
    rw [hc, Fin.ext (he.trans hv.symm)]
  case range => exact Fin.le_def.mpr (he ▸ offerPct_le ho)
  case mono =>
    intro now' hn'
    have ⟨o', hv, hc⟩ := checkedOffer_ok (hn.trans hn') ho hl
    refine ⟨o', Fin.le_def.mpr ?_, currentOffer_of_checked hc⟩
    rw [he, hv]
    exact offerPct_mono ho (Nat.sub_le_sub_right (Fin.le_def.mp hn') _)
  case tracks =>
    intro hd
    rw [hv] at he
    refine ⟨_, term2_ok _ ho (Fin.lt_def.mp hd), ?_⟩
    rw [he]
    exact offerPct_share ho (Fin.lt_def.mp hd) duration.isLt _

-- A third of an auction of an hour has passed, which began with half of the collateral.
theorem currentOffer_tracks_third : currentOffer 1201 1 3600 505000000000000000 = .ok 66 ∧
    ∃ share, term2 505000000000000000 3600 1200 = .ok share ∧
    66 * WAD ≤ 100 * share ∧ 100 * share < 68 * WAD := by
  have h : currentOffer 1201 1 (Uint.truncate 64 ((3600 : U32) : ℕ)) 505000000000000000 = .ok 66 :=
    (currentOffer_eq_ok (by decide)).mpr (by decide +kernel)
  exact ⟨h, (currentOffer_tracks h).right.right.right (by decide)⟩

end YieldLiquidator.Liquidator
