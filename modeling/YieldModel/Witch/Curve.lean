import YieldModel.Witch.Pricing

open Math FixedPoint

-- What `payAll` hands out in the course of an auction.

namespace OldWitch

variable {s s' : State} {ctx : Context} {v : Bytes12} {ink art offer duration elapsed : ℕ}

-- The collateral which is paid for the whole debt.
def handsOut (balances : DataTypes.Balances) (initialOffer_ duration_ elapsed : ℕ) : Call ℕ := do
  let price ← inkPrice balances initialOffer_ duration_ elapsed
  let ink ← wmul balances.art price
  return (if balances.ink < ink then balances.ink else ink)

def curve (ink art offer duration elapsed : ℕ) : ℕ :=
  min ink (art * priceAt ink art (share offer duration elapsed) / WAD)

-- How the collateral of an auction is meant to be sold. The offer grows with the time until it is
-- all of `ink`, and follows the exact share up to rounding.
structure Curve (ink art offer duration : ℕ) (f : ℕ → ℕ) : Prop where
  mono  : Monotone f
  le    : ∀ t, f t ≤ ink
  floor : ∀ t, ⌊ink * exactShare ℚ offer duration t⌋₊ ≤ f t
  near  : ∀ t, (f t : ℚ) ≤ ink * exactShare ℚ offer duration t + (2 * ink + 3 * art) / WAD
  ends  : ∀ t, duration ≤ t → f t = ink

theorem share_mono (offer : ℕ) (hd : 0 < duration) : Monotone (share offer duration) := by
  intro t t' h
  have hm := Nat.mul_le_mul_right WAD (min_le_min_left duration h)
  have hq := Nat.mul_le_mul_left (WAD - offer) (ceilDiv_mono hd hm)
  exact Nat.add_le_add_left (ceilDiv_mono WAD_pos hq) offer

theorem curve_mono (ink offer : ℕ) (hd : 0 < duration) :
    Monotone (curve ink art offer duration) := by
  intro t t' h
  have hp : priceAt ink art (share offer duration t) ≤ priceAt ink art (share offer duration t') :=
    ceilDiv_mono WAD_pos (Nat.mul_le_mul_left _ (share_mono offer hd h))
  exact min_le_min_left _ (Nat.div_le_div_right (Nat.mul_le_mul_left _ hp))

theorem curve_eq_ink (ha : 0 < art) (ho : offer ≤ WAD) (hd : 0 < duration)
    (h : duration ≤ elapsed) : curve ink art offer duration elapsed = ink := by
  rw [curve, share_eq_WAD ho hd (.inl h), min_eq_left]
  exact (Nat.le_div_iff_mul_le WAD_pos).mpr (le_mul_priceAt_WAD ha)

theorem exactInk_art (ink : ℕ) (x : ℚ) (ha : 0 < art) : exactInk ℚ ink art art x = ink * x := by
  have : (art : ℚ) ≠ 0 := by exact_mod_cast ha.ne'
  unfold exactInk
  field_simp

-- The exact amount is not above the collateral, and not above the price by more than its fraction.
theorem floor_le_curve (ink elapsed : ℕ) (ha : 0 < art) (ho : offer ≤ WAD) (hd : 0 < duration) :
    ⌊ink * exactShare ℚ offer duration elapsed⌋₊ ≤ curve ink art offer duration elapsed := by
  have hx : exactShare ℚ offer duration elapsed ≤ 1 := exactShare_le_one elapsed ho hd
  refine le_min ?_ ?_
  case refine_1 =>
    have hl : (ink : ℚ) * exactShare ℚ offer duration elapsed ≤ ink :=
      mul_le_of_le_one_right ink.cast_nonneg hx
    exact (Nat.floor_le_floor hl).trans (Nat.floor_natCast ink).le
  case refine_2 =>
    have hp := exactInk_le_priceAt (K := ℚ) ink art elapsed ha ho hd
    rw [exactInk_art ink _ ha] at hp
    rw [← Nat.floor_div_eq_div (K := ℚ)]
    exact Nat.floor_le_floor (by push_cast; exact hp)

theorem curve_le_near (ink elapsed : ℕ) (ha : 0 < art) (ho : offer ≤ WAD) (hd : 0 < duration) :
    (curve ink art offer duration elapsed : ℚ) ≤
    ink * exactShare ℚ offer duration elapsed + (2 * ink + 3 * art) / WAD := by
  have hp := priceAt_le_exactInk (K := ℚ) ink elapsed ha ho hd le_rfl
  rw [exactInk_art ink _ ha] at hp
  have hf : ((art * priceAt ink art (share offer duration elapsed) / WAD : ℕ) : ℚ) ≤
      (art * priceAt ink art (share offer duration elapsed) : ℕ) / (WAD : ℚ) := Nat.cast_div_le
  push_cast at hf
  calc
    _ ≤ ((art * priceAt ink art (share offer duration elapsed) / WAD : ℕ) : ℚ) := by
      exact_mod_cast min_le_right ..
    _ ≤ _ := hf.trans hp

theorem curve_curve (ink : ℕ) (ha : 0 < art) (ho : offer ≤ WAD) (hd : 0 < duration) :
    Curve ink art offer duration (curve ink art offer duration) where
  mono      := curve_mono ink offer hd
  le _      := min_le_left ..
  floor t   := floor_le_curve ink t ha ho hd
  near t    := curve_le_near ink t ha ho hd
  ends _ ht := curve_eq_ink ha ho hd ht

-- The computation of the amount is always in range.
theorem handsOut_eq {balances : DataTypes.Balances} {duration : Uint 32} (elapsed : ℕ)
    (ha : 0 < (balances.art : ℕ)) (ho : offer ≤ WAD) (hd : 0 < (duration : ℕ)) :
    handsOut balances offer duration elapsed =
    .ok (curve balances.ink balances.art offer duration elapsed) := by
  have ⟨price, hp⟩ := inkPrice_ok elapsed ha hd ho
  obtain ⟨-, -, -, rfl⟩ := inkPrice_eq_ok hp
  have hl := mul_priceAt_lt balances.ink ha (share_le elapsed ho hd)
  have hi : balances.ink * WAD ≤ 2 ^ 128 * WAD := Nat.mul_le_mul_right _ balances.ink.isLt.le
  have hb := balances.art.isLt
  have hW : WAD = 10 ^ 18 := rfl
  simp only [handsOut, Call.bind_eq_ok, Call.pure_eq_ok, wmul_eq_ok]
  refine ⟨_, hp, _, ⟨by omega, rfl⟩, ?_⟩
  rw [curve, min_def]
  split <;> split <;> omega

theorem quote_eq_handsOut {q : ℕ} (h : quote s ctx.block v (s.cauldron.balances v).art = .ok q) :
    handsOut (s.cauldron.balances v) (s.ilk v).initialOffer (s.ilk v).duration
      (s.elapsed ctx.block v) = .ok (min ((s.cauldron.balances v).ink : ℕ) q) := by
  simp only [quote, Call.bind_eq_ok, Uint.sub_eq_ok, Uint.truncate_val] at h
  obtain ⟨elapsed, he, price, hp, hq⟩ := h
  have he : s.elapsed ctx.block v = elapsed := by
    unfold State.elapsed
    omega
  simp only [handsOut, Call.bind_eq_ok, Call.pure_eq_ok, he]
  refine ⟨price, hp, q, hq, ?_⟩
  rw [min_def]
  split <;> split <;> omega

theorem payAll_eq_handsOut {m : Uint 128} (h : payAll s ctx v m = .ok (s', ink)) :
    handsOut (s.cauldron.balances v) (s.ilk v).initialOffer (s.ilk v).duration
      (s.elapsed ctx.block v) = .ok ink := by
  obtain ⟨_, q, _, hq, _, rfl, _⟩ := payAll_eq_ok h
  exact quote_eq_handsOut hq

end OldWitch
