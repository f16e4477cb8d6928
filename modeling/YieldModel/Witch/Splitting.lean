import YieldModel.Lib.Proportional
import YieldModel.Witch.Pricing

open Math FixedPoint Proportional

namespace OldWitch

variable {s s' s₁ s₂ : State} {ctx : Context} {block : Block} {v : Bytes12} {n A paid : ℕ}

-- What one purchase which repays `art` pays out: the whole debt is repaid with `payAll`, which caps
-- the amount at the collateral of the vault.
def State.single (s : State) (block : Block) (v : Bytes12) (art : ℕ) : Call ℕ := do
  let ink ← quote s block v art
  return if art = (s.cauldron.balances v).art then min ((s.cauldron.balances v).ink : ℕ) ink else ink

-- The calls of a split happen in the same block, when base and debt are worth the same.
structure Context.AtPar (ctx : Context) (block : Block) : Prop where
  block        : ctx.block = block
  debtFromBase : ∀ i base, ctx.debtFromBase i base = .ok base
  debtToBase   : ∀ i art, ctx.debtToBase i art = .ok art

-- A sequence of `n` purchases from `v`, which repay `A` and pay out `paid`.
inductive Buys (block : Block) (v : Bytes12) : State → ℕ → ℕ → ℕ → State → Prop
  | none {s : State} : Buys block v s 0 0 0 s
  | buy {s s₁ s₂ : State} {n A paid ink : ℕ} {ctx : Context} {base m : Uint 128} :
    Buys block v s n A paid s₁ → ctx.AtPar block → OldWitch.buy s₁ ctx v base m = .ok (s₂, ink) →
    Buys block v s (n + 1) (A + base) (paid + ink) s₂

inductive Splits (block : Block) (v : Bytes12) : State → ℕ → ℕ → ℕ → State → Prop
  | buys {s s' : State} {n A paid : ℕ} :
    Buys block v s n A paid s' → Splits block v s n A paid s'
  | payAll {s s₁ s₂ : State} {n A paid ink : ℕ} {ctx : Context} {m : Uint 128} :
    Buys block v s n A paid s₁ → ctx.AtPar block → OldWitch.payAll s₁ ctx v m = .ok (s₂, ink) →
    Splits block v s (n + 1) (A + (s₁.cauldron.balances v).art) (paid + ink) s₂

-- Both ways of buying pay out what the quote promises.
theorem buy_single {base m : Uint 128} {ink : ℕ} (hp : ctx.AtPar block)
    (hb : (base : ℕ) ≠ (s.cauldron.balances v).art) (h : buy s ctx v base m = .ok (s', ink)) :
    s.single block v base = .ok ink := by
  have ⟨_, _, _, _, ha, hq, _⟩ := buy_eq_ok h
  cases hp.debtFromBase _ _ |>.symm.trans ha
  simp only [State.single, hp.block ▸ hq, if_neg hb]
  rfl

theorem payAll_single {m : Uint 128} {ink : ℕ} (hp : ctx.AtPar block)
    (h : payAll s ctx v m = .ok (s', ink)) :
    s.single block v (s.cauldron.balances v).art = .ok ink := by
  have ⟨_, _, _, hq, _, hm, _⟩ := payAll_eq_ok h
  simp only [State.single, hp.block ▸ hq, hm, if_true]
  rfl

noncomputable def State.stock (s : State) (v : Bytes12) : Stock where
  left := (s.cauldron.balances v).ink
  owed := (s.cauldron.balances v).art
  left_nonneg := Nat.cast_nonneg _
  owed_nonneg := Nat.cast_nonneg _

theorem stock_owed_add {a : ℕ} : (s'.stock v).owed + a = (s.stock v).owed ↔
    ((s'.cauldron.balances v).art : ℕ) + a = (s.cauldron.balances v).art := by
  simp only [State.stock]
  norm_cast

theorem stock_left_add {a : ℕ} : (s'.stock v).left + a = (s.stock v).left ↔
    ((s'.cauldron.balances v).ink : ℕ) + a = (s.cauldron.balances v).ink := by
  simp only [State.stock]
  norm_cast

-- The share of the collateral which is on offer.
noncomputable def State.offered (s : State) (block : Block) (v : Bytes12) : ℝ :=
  exactShare ℝ (s.ilk v).initialOffer (s.ilk v).duration (s.elapsed block v)

-- The most by which the price of a purchase is off, due to rounding.
noncomputable def State.rounding (s : State) (v : Bytes12) : ℝ :=
  (2 * ((s.cauldron.balances v).ink : ℕ) + 3 * ((s.cauldron.balances v).art : ℕ)) / WAD

-- The collateral which is exactly due for `p` units of the debt.
noncomputable def State.due (s : State) (block : Block) (v : Bytes12) (p : ℕ) : ℝ :=
  exactInk ℝ (s.cauldron.balances v).ink (s.cauldron.balances v).art p (s.offered block v)

theorem quote_le_due {p q : ℕ} (hq : quote s block v p = .ok q)
    (ha : 0 < ((s.cauldron.balances v).art : ℕ)) (hp : p ≤ (s.cauldron.balances v).art) :
    q ≤ s.due block v p + s.rounding v := by
  have ⟨hd, ho, hq⟩ := quote_eq_ok hq
  have hl := priceAt_le_exactInk (K := ℝ) (s.cauldron.balances v).ink
    (s.elapsed block v) ha ho hd hp
  apply le_trans _ hl
  rw [hq]
  exact_mod_cast Nat.cast_div_le (α := ℝ)

theorem due_lt_quote {p q : ℕ} (hq : quote s block v p = .ok q)
    (ha : 0 < ((s.cauldron.balances v).art : ℕ)) : s.due block v p < q + 1 := by
  have ⟨hd, ho, hq⟩ := quote_eq_ok hq
  have hl := exactInk_le_priceAt (K := ℝ) (s.cauldron.balances v).ink p
    (s.elapsed block v) ha ho hd
  apply lt_of_le_of_lt hl
  rw [hq]
  exact_mod_cast lt_div_add_one (K := ℝ) _ WAD_pos

-- What a sequence of purchases has done to the vault.
structure State.Sold (s : State) (block : Block) (v : Bytes12) (n A paid : ℕ) (s' : State) :
    Prop where
  ink     : ((s'.cauldron.balances v).ink : ℕ) + paid = (s.cauldron.balances v).ink
  art     : ((s'.cauldron.balances v).art : ℕ) + A = (s.cauldron.balances v).art
  sales   : Sales (s.offered block v) (s.rounding v) n (s.stock v) (s'.stock v)
  goes_on : 0 < (s'.cauldron.balances v).art →
            s'.ilk v = s.ilk v ∧ s'.witch.auctions v = s.witch.auctions v

theorem State.Sells.stock_sale {art ink : Uint 128} {q : ℕ} {e : ℝ} (h : s.Sells v art ink s')
    (hq : quote s block v art = .ok q) (hi : ink ≤ q) (he : s.rounding v ≤ e) :
    Sale (s.offered block v) e (s.stock v) (s'.stock v) := by
  have hp : (art : ℕ) ≤ (s.cauldron.balances v).art := by have := h.art; omega
  have hd := quote_le_due hq h.debt hp
  have hi : ((ink : ℕ) : ℝ) ≤ q := by exact_mod_cast hi
  have hart := stock_owed_add.mpr h.art
  have hink := stock_left_add.mpr h.ink
  have ha : 0 < (s.stock v).owed := Nat.cast_pos.mpr h.debt
  have hr : (s.stock v).left * (s.offered block v * (1 - (s'.stock v).owed / (s.stock v).owed)) =
      s.due block v art := by
    rw [State.due, exactInk, eq_sub_of_add_eq hart]
    change _ = (art : ℕ) * (s.stock v).left * _ / (s.stock v).owed
    field_simp
    ring
  exact {
    owed_pos := ha
    owed_le  := by linarith [(art : ℕ).cast_nonneg (α := ℝ)]
    left_ge  := by
      rw [mul_sub, hr]
      linarith
  }

-- Every further purchase happens under the conditions of the first one.
theorem State.Sold.next {art ink : Uint 128} {q : ℕ} (h : s.Sold block v n A paid s₁)
    (hs : s₁.Sells v art ink s₂) (hq : quote s₁ block v art = .ok q) (hi : ink ≤ q) :
    s.Sold block v (n + 1) (A + art) (paid + ink) s₂ := by
  have hg := h.goes_on hs.debt
  have ho : s₁.offered block v = s.offered block v := by
    simp only [State.offered, State.elapsed, hg]
  have hr : s₁.rounding v ≤ s.rounding v := by
    have hink : ((s₁.cauldron.balances v).ink : ℕ) ≤ (s.cauldron.balances v).ink := by
      have := h.ink
      omega
    have hart : ((s₁.cauldron.balances v).art : ℕ) ≤ (s.cauldron.balances v).art := by
      have := h.art
      omega
    simp only [State.rounding]
    gcongr
  exact {
    ink     := by have := h.ink; have := hs.ink; omega
    art     := by have := h.art; have := hs.art; omega
    sales   := h.sales.more (ho ▸ hs.stock_sale hq hi hr)
    goes_on := fun hp => by
      have ⟨ha, hv⟩ := hs.goes_on hp.ne'
      simp only [State.ilk, hs.ilks, hs.ilkId, ha]
      exact hg
  }

theorem Buys.sold (h : Buys block v s n A paid s') : s.Sold block v n A paid s' := by
  induction h
  case none => exact ⟨by simp, by simp, .none, fun _ => ⟨rfl, rfl⟩⟩
  case buy hp hb hi =>
    have ⟨art, _, hink, _, ha, hq, hs⟩ := buy_eq_ok hb
    cases hp.debtFromBase _ _ |>.symm.trans ha
    subst hink
    exact hi.next hs (hp.block ▸ hq) le_rfl

theorem Splits.sold (h : Splits block v s n A paid s') : s.Sold block v n A paid s' := by
  cases h
  case buys h => exact h.sold
  case payAll h hp hb =>
    have ⟨_, _, hink, hq, _, hm, hs⟩ := payAll_eq_ok hb
    subst hink
    exact h.sold.next hs (hp.block ▸ hq) (hm ▸ min_le_right _ _)

-- What the exact amounts of a split can exceed those of a single purchase by.
noncomputable def State.gain (s : State) (block : Block) (v : Bytes12) (A : ℕ) : ℝ :=
  ((s.cauldron.balances v).ink : ℕ) *
    Proportional.gain (s.offered block v) (1 - A / ((s.cauldron.balances v).art : ℕ))

theorem State.Sold.paid_le_due (h : s.Sold block v n A paid s')
    (ha : 0 < ((s.cauldron.balances v).art : ℕ)) (hd : 0 < ((s.ilk v).duration : ℕ))
    (ho : ((s.ilk v).initialOffer : ℕ) ≤ WAD) :
    paid ≤ s.due block v A + s.gain block v A + n * s.rounding v := by
  have hx : 0 ≤ s.offered block v := exactShare_nonneg _ _ ho
  have hx₁ : s.offered block v ≤ 1 := exactShare_le_one _ ho hd
  have hr : 0 ≤ s.rounding v := by
    unfold State.rounding
    positivity
  have hl := h.sales.paid_le hx hx₁ hr
  have hp : (s.stock v).owed ≠ 0 := (Nat.cast_pos.mpr ha).ne'
  have hart := stock_owed_add.mpr h.art
  have hink := stock_left_add.mpr h.ink
  have hq : (s'.stock v).owed / (s.stock v).owed = 1 - A / (s.stock v).owed := by
    rw [eq_sub_of_add_eq hart, sub_div, div_self hp]
  have hdue : (s.stock v).left * (s.offered block v * (1 - (1 - A / (s.stock v).owed))) =
      s.due block v A := by
    rw [State.due, exactInk]
    change _ = (A : ℝ) * (s.stock v).left * _ / (s.stock v).owed
    ring
  rw [hq, hdue] at hl
  have : s.gain block v A = (s.stock v).left * Proportional.gain _ (1 - A / (s.stock v).owed) := rfl
  linarith

theorem gain_nonneg (block : Block) (hA : A ≤ (s.cauldron.balances v).art)
    (hd : 0 < ((s.ilk v).duration : ℕ))
    (ho : ((s.ilk v).initialOffer : ℕ) ≤ WAD) : 0 ≤ s.gain block v A := by
  have hr : (A : ℝ) / ((s.cauldron.balances v).art : ℕ) ≤ 1 :=
    div_le_one_of_le₀ (by exact_mod_cast hA) (Nat.cast_nonneg _)
  have hg := Proportional.gain_nonneg (exactShare_nonneg (K := ℝ) _ _ ho)
    (exactShare_le_one (s.elapsed block v) ho hd) (sub_nonneg.mpr hr)
  exact mul_nonneg (Nat.cast_nonneg _) hg

theorem gain_eq_zero (hd : 0 < ((s.ilk v).duration : ℕ))
    (h : ((s.ilk v).duration : ℕ) ≤ s.elapsed block v ∨ ((s.ilk v).initialOffer : ℕ) = WAD) :
    s.gain block v A = 0 := by
  simp [State.gain, State.offered, exactShare_eq_one hd h]

-- No call, no debt.
theorem Splits.eq_zero (h : Splits block v s 0 A paid s') : A = 0 ∧ paid = 0 := by
  cases h with | buys h => cases h; exact ⟨rfl, rfl⟩

theorem Splits.due_le (h : Splits block v s n A paid s') {q : ℕ}
    (hq : quote s block v A = .ok q) (ha : 0 < ((s.cauldron.balances v).art : ℕ)) :
    s.due block v A ≤ q + n := by
  cases n
  case zero =>
    have ⟨hA, _⟩ := h.eq_zero
    simp [State.due, exactInk, hA]
  case succ n =>
    have := due_lt_quote hq ha
    push_cast
    linarith [n.cast_nonneg (α := ℝ)]

theorem Splits.paid_le (h : Splits block v s n A paid s')
    (ha : 0 < ((s.cauldron.balances v).art : ℕ)) (hd : 0 < ((s.ilk v).duration : ℕ))
    (ho : ((s.ilk v).initialOffer : ℕ) ≤ WAD) {q : ℕ} (hq : quote s block v A = .ok q) :
    paid ≤ (if A = (s.cauldron.balances v).art then
      min ((s.cauldron.balances v).ink : ℕ) q else q : ℕ) +
      s.gain block v A + n * (s.rounding v + 1) := by
  have hs := h.sold
  have hl := hs.paid_le_due ha hd ho
  have hu := h.due_le hq ha
  have hq' : paid ≤ q + s.gain block v A + n * (s.rounding v + 1) := by linarith
  split
  case isFalse => exact hq'
  case isTrue =>
    by_cases hi : ((s.cauldron.balances v).ink : ℕ) ≤ q
    case neg => rwa [min_eq_right (not_le.mp hi).le]
    case pos =>
      have hA : A ≤ (s.cauldron.balances v).art := by have := hs.art; omega
      have hg := gain_nonneg block hA hd ho
      have hp : (paid : ℝ) ≤ ((s.cauldron.balances v).ink : ℕ) := by
        have := hs.ink
        exact_mod_cast (by omega : paid ≤ _)
      have hr : 0 ≤ n * (s.rounding v + 1) := by
        unfold State.rounding
        positivity
      rw [min_eq_left hi]
      linarith

-- Splitting a purchase pays out no more than the purchase itself, apart from the rounding of the
-- price and from the gain, which exists because the part of the collateral which is not on offer
-- raises the price of the debt which is left. Nothing is gained when everything is on offer.
theorem splits_paid_le (h : Splits block v s n A paid s')
    (ha : 0 < ((s.cauldron.balances v).art : ℕ)) (hd : 0 < ((s.ilk v).duration : ℕ))
    (ho : ((s.ilk v).initialOffer : ℕ) ≤ WAD)
    (ht : ((s.witch.auctions v).start : ℕ) ≤ block.timestamp % 2 ^ 32) :
    ∃ q, s.single block v A = .ok q ∧
    paid ≤ q + s.gain block v A + n * (s.rounding v + 1) ∧
    (((s.ilk v).duration : ℕ) ≤ s.elapsed block v ∨ ((s.ilk v).initialOffer : ℕ) = WAD →
      paid ≤ q + n * (s.rounding v + 1)) := by
  have ⟨q, hq⟩ := quote_ok ha hd ho ht (by have := h.sold.art; omega : A ≤ _)
  have hl := h.paid_le ha hd ho hq
  refine ⟨_, by simp only [State.single, hq]; rfl, hl, fun hx => ?_⟩
  rwa [gain_eq_zero hd hx, add_zero] at hl

namespace Halves

def start : Block := ⟨1, by decide⟩

theorem plain_atPar : (Context.plain start).AtPar start :=
  ⟨rfl, fun _ _ => rfl, fun _ _ => rfl⟩

-- An auction which has just started, with half of the collateral on offer.
def opened : State where
  witch := {
    roles    := .init 7
    ladle    := 0
    auctions := Function.update (fun _ => ⟨0, 0⟩) 0 ⟨7, 1⟩
    ilks _   := ⟨3600, 500000000000000000⟩
    limits _ := ⟨0, 0, 0, 100000000000000000000⟩
  }
  cauldron := ⟨fun _ => ⟨2, 0, 0⟩, fun _ => ⟨100000000000000000000, 100000000000000000000⟩⟩

-- The debt is repaid in two halves. The result is the second half, and what the halves pay out.
def halves : Call (ℕ × ℕ × ℕ) := do
  let (s₁, ink₁) ← buy opened (.plain start) 0 50000000000000000000 0
  let (_, ink₂) ← payAll s₁ (.plain start) 0 0
  return ((s₁.cauldron.balances 0).art, ink₁, ink₂)

theorem halves_eq :
    halves = .ok (50000000000000000000, 25000000000000000000, 37500000000000000000) := by
  decide +kernel

theorem splits : ∃ s, Splits start 0 opened 2 100000000000000000000 62500000000000000000 s := by
  have h := halves_eq
  simp only [halves, Call.bind_eq_ok, Call.pure_eq_ok, Prod.exists, Prod.mk.injEq] at h
  obtain ⟨s₁, _, h₁, s₂, _, h₂, ha, rfl, rfl⟩ := h
  have hs := (Buys.none.buy plain_atPar h₁)
  have hs := Splits.payAll hs plain_atPar h₂
  rw [ha] at hs
  exact ⟨s₂, hs⟩

theorem single_eq : opened.single start 0 100000000000000000000 = .ok 50000000000000000000 := by
  decide

end Halves

theorem splits_paid_le_halves :
    ∃ q, Halves.opened.single Halves.start 0 100000000000000000000 = .ok q ∧
    (62500000000000000000 : ℕ) ≤ q + Halves.opened.gain Halves.start 0 100000000000000000000 +
      (2 : ℕ) * (Halves.opened.rounding 0 + 1) := by
  have ⟨_, h⟩ := Halves.splits
  have ⟨q, hq, hl, _⟩ := splits_paid_le h (by decide) (by decide) (by decide) (by decide)
  exact ⟨q, hq, hl⟩

-- The second half of the debt pays out more than the first half.
theorem splits_gain : ¬∀ (block : Block) (v : Bytes12) (s s' : State) (n A paid q : ℕ),
    0 < (s.witch.auctions v).start → 0 < (s.cauldron.balances v).art →
    0 < (s.ilk v).duration → ((s.ilk v).initialOffer : ℕ) ≤ WAD →
    Splits block v s n A paid s' → s.single block v A = .ok q →
    paid ≤ q + n * (s.rounding v + 1) := by
  intro h
  have ⟨_, hs⟩ := Halves.splits
  have hl := h _ _ _ _ _ _ _ _ (by decide) (by decide) (by decide) (by decide) hs Halves.single_eq
  have hr : Halves.opened.rounding 0 = (2 * (100000000000000000000 : ℕ) +
    3 * (100000000000000000000 : ℕ)) / (1000000000000000000 : ℕ) := rfl
  rw [hr] at hl
  norm_num at hl

end OldWitch
