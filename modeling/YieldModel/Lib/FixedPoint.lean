import Mathlib

-- Rounding of natural number quotients, measured in an ordered field. Every fixed point operation
-- is such a quotient, so the error of a chain of operations is found by composing these bounds.

namespace FixedPoint

theorem le_ceilDiv_mul (n : ℕ) {d : ℕ} (hd : 0 < d) : n ≤ (n ⌈/⌉ d) * d := by
  simpa [mul_comm] using le_smul_ceilDiv (b := n) hd

theorem ceilDiv_mul_lt (n : ℕ) {d : ℕ} (hd : 0 < d) : (n ⌈/⌉ d) * d < n + d := by
  have := Nat.div_mul_le_self (n + d - 1) d
  rw [Nat.ceilDiv_eq_add_pred_div]
  omega

theorem ceilDiv_le_of_le_mul {n d c : ℕ} (hd : 0 < d) (h : n ≤ c * d) : n ⌈/⌉ d ≤ c :=
  ceilDiv_le_iff_le_mul hd |>.mpr (mul_comm c d ▸ h)

-- The least multiple of the divisor which is not below the dividend.
theorem ceilDiv_eq {n d c : ℕ} (h : n ≤ c * d) (hc : c * d < n + d) : n ⌈/⌉ d = c := by
  have hd : 0 < d := Nat.pos_of_lt_add_right (h.trans_lt hc)
  apply le_antisymm (ceilDiv_le_of_le_mul hd h)
  have hn := le_ceilDiv_mul n hd
  have hl : c * d < (n ⌈/⌉ d + 1) * d := by rw [Nat.succ_mul]; omega
  exact Nat.le_of_lt_succ (Nat.lt_of_mul_lt_mul_right hl)

theorem mul_ceilDiv_le {n d : ℕ} (c : ℕ) (hd : 0 < d) (h : n ≤ d) : (n * c) ⌈/⌉ d ≤ c :=
  ceilDiv_le_of_le_mul hd (mul_comm d c ▸ Nat.mul_le_mul_right c h)

theorem ceilDiv_mul_self (c : ℕ) {d : ℕ} (hd : 0 < d) : (c * d) ⌈/⌉ d = c := by
  apply le_antisymm (ceilDiv_le_of_le_mul hd le_rfl)
  exact Nat.le_of_mul_le_mul_right (le_ceilDiv_mul _ hd) hd

theorem ceilDiv_mono {d : ℕ} (hd : 0 < d) : Monotone fun n : ℕ => n ⌈/⌉ d :=
  (gc_mul_ceilDiv hd).monotone_l

section Field

variable {K : Type*} [Field K] [LinearOrder K] [IsStrictOrderedRing K]

theorem div_le_ceilDiv (n : ℕ) {d : ℕ} (hd : 0 < d) : (n : K) / d ≤ (n ⌈/⌉ d : ℕ) := by
  have hd' : (0 : K) < d := by exact_mod_cast hd
  rw [div_le_iff₀ hd']
  exact_mod_cast le_ceilDiv_mul n hd

theorem ceilDiv_lt (n : ℕ) {d : ℕ} (hd : 0 < d) : ((n ⌈/⌉ d : ℕ) : K) < n / d + 1 := by
  have hd' : (0 : K) < d := by exact_mod_cast hd
  have h : (((n ⌈/⌉ d) * d : ℕ) : K) < ((n + d : ℕ) : K) := by exact_mod_cast ceilDiv_mul_lt n hd
  push_cast at h
  rw [← div_add_same (ne_of_gt hd'), lt_div_iff₀ hd']
  exact h

theorem lt_div_add_one (n : ℕ) {d : ℕ} (hd : 0 < d) : (n : K) / d < ((n / d : ℕ) : K) + 1 := by
  have hd' : (0 : K) < d := by exact_mod_cast hd
  rw [div_lt_iff₀ hd']
  have h := Nat.lt_mul_div_succ n hd
  rw [mul_comm] at h
  exact_mod_cast h

end Field

end FixedPoint
