import YieldModel.Witch.Execution

open Math FixedPoint

namespace OldWitch

-- The share of the collateral which is on offer, as a fixed point number.
def share (offer duration elapsed : ℕ) : ℕ :=
  offer + ((WAD - offer) * ((min duration elapsed * WAD) ⌈/⌉ duration)) ⌈/⌉ WAD

-- The price which results from offering `share` of the collateral, rounded up twice.
def priceAt (ink art share : ℕ) : ℕ :=
  (((ink * WAD) ⌈/⌉ art) * share) ⌈/⌉ WAD

-- The time since the start of an auction, with the truncated timestamp.
def State.elapsed (s : State) (block : Block) (v : Bytes12) : ℕ :=
  block.timestamp % 2 ^ 32 - (s.witch.auctions v).start

variable {ink art offer duration elapsed price p : ℕ}

theorem inkPrice_eq_ok {balances : DataTypes.Balances}
    (h : inkPrice balances offer duration elapsed = .ok price) :
    0 < (balances.art : ℕ) ∧ 0 < duration ∧ offer ≤ WAD ∧
    price = priceAt balances.ink balances.art (share offer duration elapsed) := by
  simp only [inkPrice, Call.bind_eq_ok, wdivup_eq_ok, wmulup_eq_ok, Uint.diff_eq_ok,
    Uint.cast_eq_ok] at h
  obtain ⟨_, ⟨-, ha, rfl⟩, rest, hr, _, ⟨-, hd, rfl⟩, _, ⟨-, rfl⟩, term2, ht, -, rfl⟩ := h
  refine ⟨Nat.pos_of_ne_zero ha, Nat.pos_of_ne_zero hd, by omega, ?_⟩
  have he : (if duration < elapsed then duration else elapsed) = min duration elapsed := by
    rw [min_def]
    split <;> split <;> omega
  have hr' : rest = WAD - offer := by omega
  rw [priceAt, share, ht, he, hr']

theorem quote_eq_ok {s : State} {block : Block} {v : Bytes12} {q : ℕ}
    (h : quote s block v art = .ok q) :
    let ilk_ := s.witch.ilks (s.cauldron.vaults v).ilkId
    let balances_ := s.cauldron.balances v
    0 < (ilk_.duration : ℕ) ∧ (ilk_.initialOffer : ℕ) ≤ WAD ∧
    q = art * priceAt balances_.ink balances_.art
      (share ilk_.initialOffer ilk_.duration (s.elapsed block v)) / WAD := by
  simp only [quote, Call.bind_eq_ok, Uint.sub_eq_ok, Uint.truncate_val, wmul_eq_ok] at h
  obtain ⟨elapsed, he, price, hp, -, rfl⟩ := h
  obtain ⟨_, hd, ho, hp⟩ := inkPrice_eq_ok hp
  have he : (elapsed : ℕ) = s.elapsed block v := by
    unfold State.elapsed
    omega
  exact ⟨hd, ho, by rw [hp, he]⟩

theorem share_le (elapsed : ℕ) (ho : offer ≤ WAD) (hd : 0 < duration) :
    share offer duration elapsed ≤ WAD := by
  have hq := mul_ceilDiv_le WAD hd (min_le_left duration elapsed)
  have hg := ceilDiv_le_of_le_mul WAD_pos (Nat.mul_le_mul_left (WAD - offer) hq)
  unfold share
  omega

-- Everything is on offer when the auction is over, or if this is how it started.
theorem share_eq_WAD (ho : offer ≤ WAD) (hd : 0 < duration) (h : duration ≤ elapsed ∨ offer = WAD) :
    share offer duration elapsed = WAD := by
  unfold share
  cases h
  case inl h =>
    rw [min_eq_left h, mul_comm _ WAD, ceilDiv_mul_self _ hd, ceilDiv_mul_self _ WAD_pos]
    omega
  case inr h => simp [h]

theorem priceAt_WAD : priceAt ink art WAD = (ink * WAD) ⌈/⌉ art :=
  ceilDiv_mul_self _ WAD_pos

theorem le_mul_priceAt_WAD (ha : 0 < art) : ink * WAD ≤ art * priceAt ink art WAD := by
  rw [priceAt_WAD, mul_comm art]
  exact le_ceilDiv_mul _ ha

-- The price of the whole debt exceeds the collateral by rounding only.
theorem mul_priceAt_lt {y : ℕ} (ink : ℕ) (ha : 0 < art) (hy : y ≤ WAD) :
    art * priceAt ink art y < ink * WAD + art := by
  have hl : priceAt ink art y ≤ (ink * WAD) ⌈/⌉ art :=
    ceilDiv_le_of_le_mul WAD_pos (Nat.mul_le_mul_left _ hy)
  calc
    _ ≤ art * ((ink * WAD) ⌈/⌉ art) := Nat.mul_le_mul_left _ hl
    _ = ((ink * WAD) ⌈/⌉ art) * art := mul_comm ..
    _ < ink * WAD + art             := ceilDiv_mul_lt _ ha

-- The price of an auctioned vault is always in range.
theorem inkPrice_ok {balances : DataTypes.Balances} {duration : Uint 32} (elapsed : ℕ)
    (ha : 0 < (balances.art : ℕ)) (hd : 0 < (duration : ℕ)) (ho : offer ≤ WAD) :
    ∃ price, inkPrice balances offer duration elapsed = .ok price := by
  have hb := balances.art.isLt
  have hl := duration.isLt
  have hW : WAD = 10 ^ 18 := rfl
  have hWW : WAD * WAD = 10 ^ 36 := rfl
  have hi : balances.ink * WAD ≤ 2 ^ 128 * WAD := Nat.mul_le_mul_right _ balances.ink.isLt.le
  have hiW : balances.ink * WAD * WAD ≤ 2 ^ 128 * WAD * WAD := Nat.mul_le_mul_right _ hi
  have hK : 2 ^ 128 * WAD * WAD = 2 ^ 128 * 10 ^ 36 := rfl
  have he : (if (duration : ℕ) < elapsed then (duration : ℕ) else elapsed) ≤ duration := by
    split <;> omega
  simp only [inkPrice, Call.bind_eq_ok]
  generalize (if (duration : ℕ) < elapsed then (duration : ℕ) else elapsed) = e at he
  have heW : e * WAD ≤ duration * WAD := Nat.mul_le_mul_right _ he
  have hlW : duration * WAD ≤ 2 ^ 32 * WAD := Nat.mul_le_mul_right _ hl.le
  have hq := mul_ceilDiv_le WAD hd he
  have hg : (WAD - offer) * ((e * WAD) ⌈/⌉ (duration : ℕ)) ≤ (WAD - offer) * WAD :=
    Nat.mul_le_mul_left _ hq
  have hr : (WAD - offer) * WAD ≤ WAD * WAD := Nat.mul_le_mul_right _ (Nat.sub_le _ _)
  have hs := ceilDiv_le_of_le_mul WAD_pos hg
  have ht : (balances.ink * WAD) ⌈/⌉ (balances.art : ℕ) ≤ balances.ink * WAD :=
    ceilDiv_le_of_le_mul ha (Nat.le_mul_of_pos_right _ ha)
  have hp := Nat.mul_le_mul ht (show
    offer + ((WAD - offer) * ((e * WAD) ⌈/⌉ (duration : ℕ))) ⌈/⌉ WAD ≤ WAD by omega)
  exact ⟨_, _, wdivup_eq_ok.mpr ⟨by omega, ha.ne', rfl⟩,
    _, Uint.diff_eq_ok.mpr (Nat.sub_add_cancel ho),
    _, wdivup_eq_ok.mpr ⟨by omega, hd.ne', rfl⟩,
    _, wmulup_eq_ok.mpr ⟨by omega, rfl⟩,
    ⟨_, by omega⟩, Uint.cast_eq_ok.mpr rfl,
    wmulup_eq_ok.mpr ⟨by dsimp only; omega, rfl⟩⟩

def State.ilk (s : State) (v : Bytes12) : Ilk :=
  s.witch.ilks (s.cauldron.vaults v).ilkId

theorem quote_ok {s : State} {block : Block} {v : Bytes12}
    (ha : 0 < ((s.cauldron.balances v).art : ℕ)) (hd : 0 < ((s.ilk v).duration : ℕ)) (ho : ((s.ilk v).initialOffer : ℕ) ≤ WAD)
    (ht : ((s.witch.auctions v).start : ℕ) ≤ block.timestamp % 2 ^ 32)
    (hp : p ≤ (s.cauldron.balances v).art) : ∃ q, quote s block v p = .ok q := by
  have ⟨price, hq⟩ := inkPrice_ok (s.elapsed block v) ha hd ho
  have ⟨_, _, _, hr⟩ := inkPrice_eq_ok hq
  have hl := mul_priceAt_lt (s.cauldron.balances v).ink ha
    (share_le (s.elapsed block v) ho hd)
  have hi : (s.cauldron.balances v).ink * WAD ≤ 2 ^ 128 * WAD :=
    Nat.mul_le_mul_right _ (s.cauldron.balances v).ink.isLt.le
  have hb := (s.cauldron.balances v).art.isLt
  have hW : WAD = 10 ^ 18 := rfl
  have hm := Nat.mul_le_mul_right price hp
  have he : s.elapsed block v < 2 ^ 32 :=
    lt_of_le_of_lt (Nat.sub_le _ _) (Nat.mod_lt _ (by decide))
  simp only [quote, Call.bind_eq_ok, Uint.sub_eq_ok, Uint.truncate_val, wmul_eq_ok]
  refine ⟨_, ⟨_, he⟩, Nat.sub_add_cancel ht, price, hq, ?_, rfl⟩
  rw [← hr] at hl
  omega

section Field

variable {K : Type*} [Field K] [LinearOrder K] [IsStrictOrderedRing K]

-- The share of the collateral which is on offer, without rounding.
def exactShare (K : Type*) [Field K] (offer duration elapsed : ℕ) : K :=
  offer / WAD + (1 - offer / WAD) * ((min duration elapsed : ℕ) / duration)

theorem exactShare_nonneg (duration elapsed : ℕ) (ho : offer ≤ WAD) :
    0 ≤ exactShare K offer duration elapsed := by
  have hW : (0 : K) < WAD := by exact_mod_cast WAD_pos
  have ho' : (offer : K) / WAD ≤ 1 := (div_le_one hW).mpr (by exact_mod_cast ho)
  have : (0 : K) ≤ (1 - offer / WAD) * ((min duration elapsed : ℕ) / duration) :=
    mul_nonneg (by linarith) (by positivity)
  unfold exactShare
  positivity

theorem exactShare_le_one (elapsed : ℕ) (ho : offer ≤ WAD) (hd : 0 < duration) :
    exactShare K offer duration elapsed ≤ 1 := by
  have hW : (0 : K) < WAD := by exact_mod_cast WAD_pos
  have hd' : (0 : K) < duration := by exact_mod_cast hd
  have ho' : (offer : K) / WAD ≤ 1 := (div_le_one hW).mpr (by exact_mod_cast ho)
  have hq : ((min duration elapsed : ℕ) : K) / duration ≤ 1 :=
    (div_le_one hd').mpr (by exact_mod_cast min_le_left _ _)
  have := mul_le_of_le_one_right (show (0 : K) ≤ 1 - offer / WAD by linarith) hq
  unfold exactShare
  linarith

theorem exactShare_eq_one (hd : 0 < duration) (h : duration ≤ elapsed ∨ offer = WAD) :
    exactShare K offer duration elapsed = 1 := by
  have hW : (WAD : K) ≠ 0 := by exact_mod_cast WAD_pos.ne'
  have hd' : (duration : K) ≠ 0 := by exact_mod_cast hd.ne'
  unfold exactShare
  cases h
  case inl h => rw [min_eq_left h, div_self hd']; ring
  case inr h => rw [h, div_self hW]; ring

theorem exactShare_mul_WAD : exactShare K offer duration elapsed * WAD =
    offer + ((WAD : K) - offer) * ((min duration elapsed : ℕ) / duration) := by
  have hW : (WAD : K) ≠ 0 := by exact_mod_cast WAD_pos.ne'
  unfold exactShare
  field_simp

-- The share is rounded up, by less than two units.
theorem exactShare_le_share (elapsed : ℕ) (ho : offer ≤ WAD) (hd : 0 < duration) :
    exactShare K offer duration elapsed * WAD ≤ share offer duration elapsed := by
  have hW : (0 : K) < WAD := by exact_mod_cast WAD_pos
  have hr : (0 : K) ≤ (WAD : K) - offer := sub_nonneg.mpr (by exact_mod_cast ho)
  have hq := div_le_ceilDiv (K := K) (min duration elapsed * WAD) hd
  have hm := div_le_ceilDiv (K := K)
    ((WAD - offer) * ((min duration elapsed * WAD) ⌈/⌉ duration)) WAD_pos
  rw [exactShare_mul_WAD, share]
  generalize (min duration elapsed * WAD) ⌈/⌉ duration = q at *
  generalize ((WAD - offer) * q) ⌈/⌉ WAD = m at *
  push_cast [Nat.cast_sub ho] at hq hm ⊢
  have hs : ((WAD : K) - offer) * ((min duration elapsed : K) / duration) ≤ m := calc
    _ = (WAD - offer) * ((min duration elapsed : K) * WAD / duration) / WAD := by field_simp
    _ ≤ (WAD - offer) * q / WAD := by gcongr
    _ ≤ m := hm
  linarith

theorem share_lt_exactShare (elapsed : ℕ) (ho : offer ≤ WAD) (hd : 0 < duration) :
    (share offer duration elapsed : K) < exactShare K offer duration elapsed * WAD + 2 := by
  have hW : (0 : K) < WAD := by exact_mod_cast WAD_pos
  have hr : (0 : K) ≤ (WAD : K) - offer := sub_nonneg.mpr (by exact_mod_cast ho)
  have hq := ceilDiv_lt (K := K) (min duration elapsed * WAD) hd
  have hm := ceilDiv_lt (K := K)
    ((WAD - offer) * ((min duration elapsed * WAD) ⌈/⌉ duration)) WAD_pos
  rw [exactShare_mul_WAD, share]
  generalize (min duration elapsed * WAD) ⌈/⌉ duration = q at *
  generalize ((WAD - offer) * q) ⌈/⌉ WAD = m at *
  push_cast [Nat.cast_sub ho] at hq hm ⊢
  have hs : ((WAD : K) - offer) * q / WAD ≤
      ((WAD : K) - offer) * ((min duration elapsed : K) / duration) + 1 := calc
    _ ≤ ((WAD : K) - offer) * ((min duration elapsed : K) * WAD / duration + 1) / WAD := by gcongr
    _ = ((WAD : K) - offer) * ((min duration elapsed : K) / duration) + (WAD - offer) / WAD := by
      field_simp
    _ ≤ _ := by
      have : (0 : K) ≤ offer := offer.cast_nonneg
      have : ((WAD : K) - offer) / WAD ≤ 1 := (div_le_one hW).mpr (by linarith)
      linarith
  linarith

-- The collateral which is exactly due for `p` units of the debt, at a share of `x`.
def exactInk (K : Type*) [Field K] (ink art p : ℕ) (x : K) : K :=
  p * ink * x / art

-- What is paid for `p` units of the debt is at least the exact amount, ...
theorem exactInk_le_priceAt (ink p elapsed : ℕ) (ha : 0 < art) (ho : offer ≤ WAD)
    (hd : 0 < duration) :
    exactInk K ink art p (exactShare K offer duration elapsed) ≤
    p * priceAt ink art (share offer duration elapsed) / (WAD : K) := by
  have hW : (0 : K) < WAD := by exact_mod_cast WAD_pos
  have ha' : (0 : K) < art := by exact_mod_cast ha
  have hs := exactShare_le_share (K := K) elapsed ho hd
  have hx := mul_nonneg
    (exactShare_nonneg (K := K) duration elapsed ho) hW.le
  have ht := div_le_ceilDiv (K := K) (ink * WAD) ha
  have hp := div_le_ceilDiv (K := K)
    ((ink * WAD) ⌈/⌉ art * share offer duration elapsed) WAD_pos
  rw [priceAt, exactInk]
  generalize exactShare K offer duration elapsed = x at *
  generalize share offer duration elapsed = y at *
  generalize (ink * WAD) ⌈/⌉ art = t at *
  generalize (t * y) ⌈/⌉ WAD = r at *
  push_cast at ht hp
  have hr : (ink : K) * WAD / art * x ≤ r := calc
    _ = (ink : K) * WAD / art * (x * WAD) / WAD := by field_simp
    _ ≤ t * y / WAD := by gcongr
    _ ≤ r := hp
  calc
    _ = p * ((ink : K) * WAD / art * x) / WAD := by field_simp
    _ ≤ p * r / WAD := by gcongr

-- ... and exceeds it by the rounding of the price only.
theorem priceAt_le_exactInk (ink elapsed : ℕ) (ha : 0 < art) (ho : offer ≤ WAD)
    (hd : 0 < duration) (hp : p ≤ art) :
    p * priceAt ink art (share offer duration elapsed) / (WAD : K) ≤
    exactInk K ink art p (exactShare K offer duration elapsed) + (2 * ink + 3 * art) / WAD := by
  have hW : (0 : K) < WAD := by exact_mod_cast WAD_pos
  have ha' : (0 : K) < art := by exact_mod_cast ha
  have hp' : (p : K) ≤ art := by exact_mod_cast hp
  have hs := (share_lt_exactShare (K := K) elapsed ho hd).le
  have hy : (share offer duration elapsed : K) ≤ WAD := by exact_mod_cast share_le elapsed ho hd
  have ht := (ceilDiv_lt (K := K) (ink * WAD) ha).le
  have hr := (ceilDiv_lt (K := K)
    ((ink * WAD) ⌈/⌉ art * share offer duration elapsed) WAD_pos).le
  rw [priceAt, exactInk]
  generalize exactShare K offer duration elapsed = x at *
  generalize share offer duration elapsed = y at *
  generalize (ink * WAD) ⌈/⌉ art = t at *
  generalize (t * y) ⌈/⌉ WAD = r at *
  push_cast at ht hr
  have hty : (t : K) * y / WAD ≤ ink * (x * WAD + 2) / art + 1 := calc
    _ ≤ ((ink : K) * WAD / art + 1) * y / WAD := by gcongr
    _ = ink * y / art + y / WAD := by field_simp
    _ ≤ ink * (x * WAD + 2) / art + 1 := by
      have : (y : K) / WAD ≤ 1 := (div_le_one hW).mpr hy
      gcongr
  have hpi : (p : K) * (2 * ink / art) ≤ 2 * ink := calc
    _ ≤ (art : K) * (2 * ink / art) := by gcongr
    _ = 2 * ink := by field_simp
  calc
    _ ≤ (p : K) * (ink * (x * WAD + 2) / art + 1 + 1) / WAD := by gcongr; linarith
    _ = p * ink * x / art + (p * (2 * ink / art) + 2 * p) / WAD := by field_simp; ring
    _ ≤ p * ink * x / art + (2 * ink + 3 * art) / WAD := by gcongr; linarith

end Field

end OldWitch
