import YieldModel.Lib.FixedPoint
import YieldModel.Objects.Basic

-- The fixed point operations of the utils library, on words of 256 bits. A fixed point number is
-- scaled by `WAD`.

namespace Math

def WAD : ℕ := 10 ^ 18

theorem WAD_pos : 0 < WAD := by
  simp [WAD]

def wmul (x y : ℕ) : Call ℕ := do
  let z ← Uint.cast 256 (x * y)
  return z / WAD

def wdiv (x y : ℕ) : Call ℕ := do
  let z ← Uint.cast 256 (x * WAD)
  Call.require (y ≠ 0) "Panic(0x12)"
  return z / y

def wmulup (x y : ℕ) : Call ℕ := do
  let _ ← Uint.cast 256 (x * y + WAD)
  return (x * y) ⌈/⌉ WAD

def wdivup (x y : ℕ) : Call ℕ := do
  let _ ← Uint.cast 256 (x * WAD + y)
  Call.require (y ≠ 0) "Panic(0x12)"
  return (x * WAD) ⌈/⌉ y

variable {x y z : ℕ}

theorem exists_cast_eq_ok {w n : ℕ} : (∃ c, Uint.cast w n = .ok c) ↔ n < 2 ^ w :=
  ⟨fun ⟨c, h⟩ => Uint.cast_eq_ok.mp h ▸ c.isLt, fun h => ⟨⟨n, h⟩, Uint.cast_eq_ok.mpr rfl⟩⟩

theorem wmul_eq_ok : wmul x y = .ok z ↔ x * y < 2 ^ 256 ∧ z = x * y / WAD := by
  simp only [wmul, Call.bind_eq_ok, Uint.cast_eq_ok, Call.pure_eq_ok]
  exact ⟨fun ⟨c, hc, hz⟩ => ⟨hc ▸ c.isLt, hc ▸ hz.symm⟩, fun ⟨h, hz⟩ => ⟨⟨_, h⟩, rfl, hz.symm⟩⟩

theorem wmulup_eq_ok : wmulup x y = .ok z ↔ x * y + WAD < 2 ^ 256 ∧ z = (x * y) ⌈/⌉ WAD := by
  simp only [wmulup, Call.bind_eq_ok, Call.pure_eq_ok, exists_and_right, exists_cast_eq_ok,
    @eq_comm _ _ z]

theorem wdivup_eq_ok : wdivup x y = .ok z ↔
    x * WAD + y < 2 ^ 256 ∧ y ≠ 0 ∧ z = (x * WAD) ⌈/⌉ y := by
  simp only [wdivup, Call.bind_eq_ok, Call.pure_eq_ok, Call.require_eq_ok, exists_and_right,
    exists_cast_eq_ok, exists_const, @eq_comm _ _ z]

end Math
