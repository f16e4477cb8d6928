import Mathlib
import YieldModel.Lib.Execution

-- A pot of assets which is owned in shares. New shares are minted, and shares are paid out, in
-- proportion to the assets, and both are rounded down.

structure Pot where
  assets : ℕ
  supply : ℕ

namespace Pot

open Execution

variable {p q r : Pot} {b d m t : ℕ}

-- What `b` shares are worth.
def worth (p : Pot) (b : ℕ) : ℕ :=
  p.assets * b / p.supply

-- The shares which are minted for a deposit of `d`.
def minted (p : Pot) (d : ℕ) : ℕ :=
  p.supply * d / p.assets

inductive Step : Pot → Pot → Prop
  | idle {p : Pot} : Step p p
  | donate {p q : Pot} : p.supply = q.supply → p.assets ≤ q.assets → Step p q
  | deposit {p q : Pot} {d : ℕ} : 0 < p.assets → q.assets = p.assets + d →
    q.supply = p.supply + p.minted d → Step p q
  | withdraw {p q : Pot} {b : ℕ} : 0 < p.supply → p.assets ≤ q.assets + p.worth b →
    q.supply + b = p.supply → Step p q

-- The shares of `p` are worth at most as much as those of `q`, as exact fractions.
structure Holds (p q : Pot) : Prop where
  supply_pos : 0 < q.supply → 0 < p.supply
  le         : p.assets * q.supply ≤ q.assets * p.supply

namespace Holds

instance : Std.Refl Holds where
  refl _ := ⟨id, le_rfl⟩

theorem trans' (h : p.Holds q) (h' : q.Holds r) : p.Holds r where
  supply_pos hr := h.supply_pos (h'.supply_pos hr)
  le := by
    by_cases hr : 0 < r.supply
    case neg => simp [Nat.eq_zero_of_not_pos hr]
    case pos =>
      apply Nat.le_of_mul_le_mul_right _ (h'.supply_pos hr)
      calc
        _ = p.assets * q.supply * r.supply := by ring
        _ ≤ q.assets * p.supply * r.supply := Nat.mul_le_mul_right _ h.le
        _ = q.assets * r.supply * p.supply := by ring
        _ ≤ r.assets * q.supply * p.supply := Nat.mul_le_mul_right _ h'.le
        _ = _                              := by ring

instance : IsTrans Pot Holds where
  trans _ _ _ := trans'

theorem div_le_div (h : p.Holds q) (hq : 0 < q.supply) :
    (p.assets : ℚ) / p.supply ≤ q.assets / q.supply := by
  rw [div_le_div_iff₀ (by exact_mod_cast h.supply_pos hq) (by exact_mod_cast hq)]
  exact_mod_cast h.le

-- What shares were worth once, they are worth ever after.
theorem worth_le (h : p.Holds q) (hq : 0 < q.supply) {c : ℕ} (hb : b ≤ c) :
    p.worth b ≤ q.worth c := by
  rw [worth, worth, Nat.le_div_iff_mul_le hq]
  apply Nat.le_of_mul_le_mul_right _ (h.supply_pos hq)
  calc
    _ = p.assets * b / p.supply * p.supply * q.supply := by ring
    _ ≤ p.assets * b * q.supply                       :=
      Nat.mul_le_mul_right _ (Nat.div_mul_le_self ..)
    _ = p.assets * q.supply * b                       := by ring
    _ ≤ q.assets * p.supply * c                       := Nat.mul_le_mul h.le hb
    _ = _                                             := by ring

end Holds

theorem minted_mul_le (p : Pot) (d : ℕ) : p.assets * p.minted d ≤ p.supply * d :=
  Nat.mul_div_le ..

theorem worth_mul_le (p : Pot) (b : ℕ) : p.worth b * p.supply ≤ p.assets * b :=
  Nat.div_mul_le_self ..

theorem minted_eq_zero (h : p.supply = 0) : p.minted d = 0 := by
  simp [minted, h]

-- No step takes anything from those who hold shares and do nothing.
theorem Step.holds (h : Step p q) : p.Holds q := by
  cases h
  case idle            => exact refl _
  case donate hs ha    => exact ⟨(hs ▸ ·), hs ▸ Nat.mul_le_mul_right _ ha⟩
  case deposit d ha hd hm =>
    refine ⟨fun hq => ?_, ?_⟩
    · by_contra hp
      have := minted_eq_zero (d := d) (Nat.eq_zero_of_not_pos hp)
      omega
    · have := minted_mul_le p d
      rw [hd, hm]
      linarith
  case withdraw b hs ha hb =>
    refine ⟨fun _ => hs, ?_⟩
    have := worth_mul_le p b
    have := Nat.mul_le_mul_right p.supply ha
    rw [← hb] at *
    linarith

theorem worth_le_assets (h : b ≤ p.supply) : p.worth b ≤ p.assets := by
  rw [worth]
  by_cases hp : 0 < p.supply
  case pos => exact Nat.div_le_of_le_mul (by rw [mul_comm p.supply]; exact Nat.mul_le_mul_left _ h)
  case neg => simp [Nat.eq_zero_of_not_pos hp]

-- Shares which have just been minted for a deposit are not worth more than the deposit. If `t` other
-- shares are sold along with them, these do not gain by it either.
theorem worth_minted_le (hd : q.assets = p.assets + d) (hm : q.supply = p.supply + p.minted d)
    (hq : 0 < q.supply) (ht : t ≤ p.supply) : q.worth (p.minted d + t) ≤ d + p.worth t := by
  by_cases hp : 0 < p.supply
  case neg =>
    have hp := Nat.eq_zero_of_not_pos hp
    have ht : t = 0 := by omega
    simp [worth, minted_eq_zero hp, ht]
  case pos =>
    have ⟨u, hu⟩ := Nat.exists_eq_add_of_le ht
    have hw := worth_mul_le q (p.minted d + t)
    have hl := Nat.mul_le_mul_left u (minted_mul_le p d)
    rw [show d + p.worth t = (p.supply * d + p.assets * t) / p.supply from
      (Nat.mul_add_div hp d _).symm, Nat.le_div_iff_mul_le hp]
    apply Nat.le_of_mul_le_mul_right _ hq
    calc
      _ = q.worth (p.minted d + t) * q.supply * p.supply     := by ring
      _ ≤ q.assets * (p.minted d + t) * p.supply             := Nat.mul_le_mul_right _ hw
      _ ≤ (p.supply * d + p.assets * t) * q.supply           := by
        rw [hd, hm]
        rw [hu] at hl ⊢
        linarith

end Pot
