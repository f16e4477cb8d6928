import Mathlib

-- A stock which is sold against a debt. Every sale pays out a fixed share `x` of what is due in
-- proportion to the debt which it repays, where the proportion is that of what is left. So every
-- sale raises the price of the following ones, unless the share is one.

namespace Proportional

structure Stock where
  left : ℝ
  owed : ℝ
  left_nonneg : 0 ≤ left
  owed_nonneg : 0 ≤ owed

-- A sale at a share of `x`, which pays out at most `e` in excess.
structure Sale (x e : ℝ) (s s' : Stock) : Prop where
  owed_pos : 0 < s.owed
  owed_le  : s'.owed ≤ s.owed
  left_ge  : s.left * (1 - x * (1 - s'.owed / s.owed)) - e ≤ s'.left

inductive Sales (x e : ℝ) : ℕ → Stock → Stock → Prop
  | none {s : Stock} : Sales x e 0 s s
  | more {n : ℕ} {s₁ s₂ s₃ : Stock} :
    Sales x e n s₁ s₂ → Sale x e s₂ s₃ → Sales x e (n + 1) s₁ s₃

-- What is left of one unit when the debt has been repaid, in infinitely many sales, up to `q`.
noncomputable def remainder (x q : ℝ) : ℝ :=
  q ^ x

variable {x e q r : ℝ} {n : ℕ} {s s' : Stock}

theorem remainder_nonneg (hq : 0 ≤ q) : 0 ≤ remainder x q :=
  Real.rpow_nonneg hq x

theorem remainder_le_one (hx : 0 ≤ x) (hq : 0 ≤ q) (hq₁ : q ≤ 1) : remainder x q ≤ 1 :=
  Real.rpow_le_one hq hq₁ hx

theorem remainder_mul (hq : 0 ≤ q) (hr : 0 ≤ r) :
    remainder x (q * r) = remainder x q * remainder x r :=
  Real.mul_rpow hq hr

@[simp]
theorem remainder_one_share : remainder 1 q = q :=
  Real.rpow_one q

-- One sale leaves at least as much as any way of splitting it.
theorem remainder_le (hx : 0 ≤ x) (hx₁ : x ≤ 1) (hq : 0 ≤ q) : remainder x q ≤ 1 - x * (1 - q) := by
  have h := rpow_one_add_le_one_add_mul_self (s := q - 1) (by linarith) hx hx₁
  rw [add_sub_cancel] at h
  rw [remainder]
  linarith

-- What splitting can gain, in proportion to the stock.
noncomputable def gain (x q : ℝ) : ℝ :=
  1 - x * (1 - q) - remainder x q

theorem gain_nonneg (hx : 0 ≤ x) (hx₁ : x ≤ 1) (hq : 0 ≤ q) : 0 ≤ gain x q :=
  sub_nonneg.mpr (remainder_le hx hx₁ hq)

-- Nothing is gained if everything is on offer.
@[simp]
theorem gain_one_share : gain 1 q = 0 := by
  simp [gain]

namespace Sale

theorem ratio_nonneg (h : Sale x e s s') : 0 ≤ s'.owed / s.owed :=
  div_nonneg s'.owed_nonneg h.owed_pos.le

theorem ratio_le_one (h : Sale x e s s') : s'.owed / s.owed ≤ 1 :=
  div_le_one h.owed_pos |>.mpr h.owed_le

theorem retains (h : Sale x e s s') (hx : 0 ≤ x) (hx₁ : x ≤ 1) :
    s.left * remainder x (s'.owed / s.owed) ≤ s'.left + e := by
  have := mul_le_mul_of_nonneg_left (remainder_le hx hx₁ h.ratio_nonneg) s.left_nonneg
  have := h.left_ge
  linarith

end Sale

namespace Sales

theorem owed_le (h : Sales x e n s s') : s'.owed ≤ s.owed := by
  induction h
  case none         => exact le_rfl
  case more hs hi   => exact hs.owed_le.trans hi

-- The errors of the single sales add up, but they are not amplified by the sales which follow.
theorem retains (h : Sales x e n s s') (hx : 0 ≤ x) (hx₁ : x ≤ 1) (he : 0 ≤ e) :
    s.left * remainder x (s'.owed / s.owed) ≤ s'.left + n * e := by
  induction h
  case none s =>
    have := remainder_le_one hx (div_nonneg s.owed_nonneg s.owed_nonneg) (div_self_le_one s.owed)
    have := mul_le_of_le_one_right s.left_nonneg this
    simpa using this
  case more n s₁ s₂ s₃ h hs hi =>
    have hp : 0 < s₁.owed := hs.owed_pos.trans_le h.owed_le
    have hq : 0 ≤ s₂.owed / s₁.owed := div_nonneg s₂.owed_nonneg hp.le
    have hr := remainder_nonneg (x := x) hs.ratio_nonneg
    have hr₁ := remainder_le_one hx hs.ratio_nonneg hs.ratio_le_one
    have hd : s₃.owed / s₁.owed = s₂.owed / s₁.owed * (s₃.owed / s₂.owed) := by
      have := hs.owed_pos.ne'
      field_simp
    calc
      _ = s₁.left * remainder x (s₂.owed / s₁.owed) * remainder x (s₃.owed / s₂.owed) := by
        rw [hd, remainder_mul hq hs.ratio_nonneg, mul_assoc]
      _ ≤ (s₂.left + n * e) * remainder x (s₃.owed / s₂.owed) := by gcongr
      _ = s₂.left * remainder x (s₃.owed / s₂.owed) + n * e * remainder x (s₃.owed / s₂.owed) := by
        ring
      _ ≤ s₃.left + e + n * e :=
        add_le_add (hs.retains hx hx₁) (mul_le_of_le_one_right (by positivity) hr₁)
      _ = s₃.left + (n + 1 : ℕ) * e := by push_cast; ring

-- What is paid out in all sales is what a single sale pays out, together with the gain.
theorem paid_le (h : Sales x e n s s') (hx : 0 ≤ x) (hx₁ : x ≤ 1) (he : 0 ≤ e) :
    s.left - s'.left ≤
    s.left * (x * (1 - s'.owed / s.owed)) + s.left * gain x (s'.owed / s.owed) + n * e := by
  have := h.retains hx hx₁ he
  rw [gain]
  linarith

end Sales

end Proportional
