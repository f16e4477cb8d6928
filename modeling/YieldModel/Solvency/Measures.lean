import YieldModel.Solvency.Basic

open Accumulation

namespace Solvency

variable {ctx : Context} {assetIds seriesIds : List Bytes6} {d ρ : Sint 256} {a a' r r' : ℕ}

theorem Measured.unique (h : Measured ctx assetIds seriesIds a r)
    (h' : Measured ctx assetIds seriesIds a' r') : a = a' ∧ r = r' := by
  obtain ⟨_, ha, rfl⟩ := h.available
  obtain ⟨_, hr, rfl⟩ := h.redeemable
  obtain ⟨_, ha', rfl⟩ := h'.available
  obtain ⟨_, hr', rfl⟩ := h'.redeemable
  rw [ha] at ha'
  rw [hr] at hr'
  exact ⟨congrArg _ (Except.ok.inj ha'), congrArg _ (Except.ok.inj hr')⟩

theorem Measured.exists_delta (h : Measured ctx assetIds seriesIds a r) :
    ∃ d, delta ctx assetIds seriesIds = .ok d ∧ d.val = a - r := by
  have := h.a_lt
  have := h.r_lt
  exact ⟨⟨a - r, by omega, by omega⟩, delta_eq_ok.mpr ⟨a, r, h, rfl⟩, rfl⟩

-- The quotient is rounded down, but never across the boundary at one.
theorem le_div_iff_delta_nonneg (hr : r ≠ 0) : 1000000 ≤ a * 1000000 / r ↔ 0 ≤ (a : ℤ) - r := by
  rw [Nat.le_div_iff_mul_le (Nat.pos_of_ne_zero hr)]
  omega

theorem delta_of_ratio (h : ratio ctx assetIds seriesIds = .ok ρ) :
    ∃ d, delta ctx assetIds seriesIds = .ok d ∧ (1000000 ≤ ρ.val ↔ 0 ≤ d.val) := by
  obtain ⟨a, r, hm, -, hr, hρ⟩ := ratio_eq_ok.mp h
  obtain ⟨d, hd, he⟩ := hm.exists_delta
  refine ⟨d, hd, ?_⟩
  rw [hρ, he, ← le_div_iff_delta_nonneg hr]
  norm_cast

theorem ratio_reverts_iff (h : delta ctx assetIds seriesIds = .ok d) :
    (¬∃ ρ, ratio ctx assetIds seriesIds = .ok ρ) ↔
      redeemable ctx seriesIds = .ok 0 ∨
      ∃ n, available ctx assetIds = .ok n ∧ 2 ^ 255 ≤ (n : ℕ) * 1000000 := by
  obtain ⟨a, r, hm, -⟩ := delta_eq_ok.mp h
  obtain ⟨n, hn, ha⟩ := hm.available
  obtain ⟨m, hm', hr⟩ := hm.redeemable
  constructor
  case mp =>
    intro hx
    rw [hm', Except.ok.injEq, Fin.ext_iff, Fin.val_zero, hr]
    by_contra hc
    simp only [not_or, not_exists, not_and, not_le] at hc
    have hl := ha ▸ hc.right n hn
    have hq : a * 1000000 / r < 2 ^ 255 := (Nat.div_le_self ..).trans_lt hl
    generalize he : a * 1000000 / r = q at hq
    exact hx ⟨⟨q, by omega, by omega⟩, ratio_eq_ok.mpr ⟨a, r, hm, hl, hc.left, by rw [he]⟩⟩
  case mpr =>
    rintro hc ⟨ρ, hρ⟩
    obtain ⟨a', r', hm'', hl, hz, -⟩ := ratio_eq_ok.mp hρ
    obtain ⟨rfl, rfl⟩ := hm.unique hm''
    cases hc
    case inl hc =>
      rw [hm', Except.ok.injEq, Fin.ext_iff, Fin.val_zero, hr] at hc
      exact hz hc
    case inr hc =>
      obtain ⟨n', hn', hc⟩ := hc
      cases hn.symm.trans hn'
      exact absurd (ha ▸ hc) (Nat.not_le_of_lt hl)

-- The amounts do not depend on how the lists are put together, and the ratio compares them in the
-- same way as the difference does.
theorem measures_agree (ctx : Context) :
    (∀ l l' n, available ctx (l ++ l') = .ok n ↔
      ∃ a b, available ctx l = .ok a ∧ available ctx l' = .ok b ∧ (n : ℕ) = a + b) ∧
    (∀ l l' n, redeemable ctx (l ++ l') = .ok n ↔
      ∃ a b, redeemable ctx l = .ok a ∧ redeemable ctx l' = .ok b ∧ (n : ℕ) = a + b) ∧
    (∀ l l' n, l.Perm l' → (available ctx l = .ok n ↔ available ctx l' = .ok n)) ∧
    (∀ l l' n, l.Perm l' → (redeemable ctx l = .ok n ↔ redeemable ctx l' = .ok n)) ∧
    (∀ assetIds seriesIds ρ, ratio ctx assetIds seriesIds = .ok ρ →
      ∃ d, delta ctx assetIds seriesIds = .ok d ∧ (1000000 ≤ ρ.val ↔ 0 ≤ d.val)) ∧
    (∀ assetIds seriesIds d, delta ctx assetIds seriesIds = .ok d →
      ((¬∃ ρ, ratio ctx assetIds seriesIds = .ok ρ) ↔
        redeemable ctx seriesIds = .ok 0 ∨
        ∃ n, available ctx assetIds = .ok n ∧ 2 ^ 255 ≤ (n : ℕ) * 1000000)) :=
  ⟨fun _ _ _ => accumulate_append, fun _ _ _ => accumulate_append,
   fun _ _ _ h => accumulate_perm h, fun _ _ _ h => accumulate_perm h,
   fun _ _ _ h => delta_of_ratio h, fun _ _ _ h => ratio_reverts_iff h⟩

namespace Solvent

-- A Join which stores 3 and a series with a supply of 2, valued one to one.
def context : Context where
  series _        := .ok ⟨4, 1, 0⟩
  spotOracles _ _ := .ok 9
  joins _         := .ok 5
  totalSupply _   := .ok 2
  storedBalance _ := .ok 3
  asset _         := .ok 6
  accrual _       := .error ""
  peek _ _ _ n    := Uint.cast 256 n

end Solvent

theorem measures_agree_solvent : ∃ d, delta Solvent.context [1, 2] [1] = .ok d ∧ 0 ≤ d.val := by
  have hr : (fun ρ => ρ.val) <$> ratio Solvent.context [1, 2] [1] = .ok 3000000 := by
    decide +kernel
  obtain ⟨ρ, hρ, hv⟩ := Call.map_eq_ok.mp hr
  have ⟨_, _, _, _, h, _⟩ := measures_agree Solvent.context
  obtain ⟨d, hd, hi⟩ := h _ _ _ hρ
  exact ⟨d, hd, hi.mp (by rw [hv]; decide)⟩

end Solvency
