import Mathlib
import YieldModel.Lib.Checked

-- Signed words of a fixed width, and the checked arithmetic on them.
@[ext]
structure Sint (w : ℕ) where
  val    : ℤ
  le_val : -2 ^ (w - 1) ≤ val
  val_lt : val < 2 ^ (w - 1)

namespace Sint

variable {w n : ℕ} {a b c : Sint w} {x : ℤ}

instance : CoeOut (Sint w) ℤ where
  coe := val

def cast (w : ℕ) (x : ℤ) : Call (Sint w) :=
  if h : -2 ^ (w - 1) ≤ x ∧ x < 2 ^ (w - 1) then .ok ⟨x, h.left, h.right⟩ else .error Uint.panic

def sub (a b : Sint w) : Call (Sint w) :=
  cast w (a.val - b.val)

def mul (a b : Sint w) : Call (Sint w) :=
  cast w (a.val * b.val)

def neg (a : Sint w) : Call (Sint w) :=
  cast w (-a.val)

-- The quotient is rounded towards zero.
def div (a b : Sint w) : Call (Sint w) := do
  Call.require (b.val ≠ 0) "Panic(0x12)"
  cast w (a.val.tdiv b.val)

-- The conversion of a word, which is not negative.
def ofUint (w n : ℕ) : Call (Sint w) :=
  if h : (n : ℤ) < 2 ^ (w - 1) then
    .ok ⟨n, (neg_nonpos.mpr (by positivity)).trans n.cast_nonneg, h⟩
  else
    .error "Cast overflow"

def zero (w : ℕ) : Sint w :=
  ⟨0, neg_nonpos.mpr (by positivity), by positivity⟩

-- The sum of a word and a signed word, which has to be a word again.
def addTo (n : Uint w) (a : Sint w) : Call (Uint w) :=
  if 0 ≤ (n : ℤ) + a.val then Uint.cast w ((n : ℤ) + a.val).toNat else .error Uint.panic

theorem cast_eq_ok : cast w x = .ok c ↔ c.val = x := by
  unfold cast
  split
  case isTrue h  => simp [Sint.ext_iff, eq_comm]
  case isFalse h =>
    simp only [reduceCtorEq, false_iff]
    exact fun he => h ⟨he ▸ c.le_val, he ▸ c.val_lt⟩

theorem sub_eq_ok : sub a b = .ok c ↔ c.val = a.val - b.val :=
  cast_eq_ok

theorem mul_eq_ok : mul a b = .ok c ↔ c.val = a.val * b.val :=
  cast_eq_ok

theorem neg_eq_ok : neg a = .ok c ↔ c.val = -a.val :=
  cast_eq_ok

theorem div_eq_ok : div a b = .ok c ↔ b.val ≠ 0 ∧ c.val = a.val.tdiv b.val := by
  simp [div, Call.bind_eq_ok, Call.require_eq_ok, cast_eq_ok]

theorem ofUint_eq_ok : ofUint w n = .ok c ↔ c.val = n := by
  unfold ofUint
  split
  case isTrue h  => simp [Sint.ext_iff, eq_comm]
  case isFalse h =>
    simp only [reduceCtorEq, false_iff]
    exact fun he => h (he ▸ c.val_lt)

theorem addTo_eq_ok {n m : Uint w} : addTo n a = .ok m ↔ (m : ℤ) = n + a.val := by
  unfold addTo
  split
  case isTrue h  => rw [Uint.cast_eq_ok]; omega
  case isFalse h =>
    simp only [reduceCtorEq, false_iff]
    omega

theorem exists_cast_eq_ok : (∃ c, cast w x = .ok c) ↔ -2 ^ (w - 1) ≤ x ∧ x < 2 ^ (w - 1) :=
  ⟨fun ⟨c, h⟩ => cast_eq_ok.mp h ▸ ⟨c.le_val, c.val_lt⟩,
   fun ⟨h, h'⟩ => ⟨⟨x, h, h'⟩, cast_eq_ok.mpr rfl⟩⟩

-- The difference of two words which are not negative is always in range.
theorem exists_sub (ha : 0 ≤ a.val) (hb : 0 ≤ b.val) : ∃ c, sub a b = .ok c := by
  have := a.val_lt
  have := b.val_lt
  exact exists_cast_eq_ok.mpr ⟨by omega, by omega⟩

end Sint
