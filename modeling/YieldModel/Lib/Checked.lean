import Mathlib

-- Words of a fixed width and programs that revert. A value of type `Uint w` is a word by
-- construction, so results of checked arithmetic never need a separate range argument.

abbrev Uint (w : ℕ) := Fin (2 ^ w)

-- The widths which have literals.
instance neZero_8 : NeZero (2 ^ 8) := ⟨by decide⟩
instance neZero_16 : NeZero (2 ^ 16) := ⟨by decide⟩
instance neZero_24 : NeZero (2 ^ 24) := ⟨by decide⟩
instance neZero_32 : NeZero (2 ^ 32) := ⟨by decide⟩
instance neZero_48 : NeZero (2 ^ 48) := ⟨by decide⟩
instance neZero_64 : NeZero (2 ^ 64) := ⟨by decide⟩
instance neZero_96 : NeZero (2 ^ 96) := ⟨by decide⟩
instance neZero_128 : NeZero (2 ^ 128) := ⟨by decide⟩
instance neZero_160 : NeZero (2 ^ 160) := ⟨by decide⟩
instance neZero_256 : NeZero (2 ^ 256) := ⟨by decide⟩

-- A call that either returns a value, or reverts with a reason.
abbrev Call := Except String

namespace Call

variable {α β : Type}

def require (c : Prop) [Decidable c] (reason : String) : Call Unit :=
  if c then .ok () else .error reason

theorem require_eq_ok {c : Prop} [Decidable c] {reason : String} {u : Unit} :
    require c reason = .ok u ↔ c := by
  simp [require]

theorem bind_eq_ok {x : Call α} {f : α → Call β} {b : β} :
    (x >>= f) = .ok b ↔ ∃ a, x = .ok a ∧ f a = .ok b := by
  cases x <;> simp [bind, Except.bind]

theorem pure_eq_ok {a b : α} : (pure a : Call α) = .ok b ↔ a = b := by
  simp [pure, Except.pure]

theorem map_eq_ok {x : Call α} {f : α → β} {b : β} :
    (f <$> x) = .ok b ↔ ∃ a, x = .ok a ∧ f a = b := by
  cases x <;> simp [Functor.map, Except.map]

theorem mapM_eq_ok {f : α → Call β} {g : α → β} (h : ∀ a b, f a = .ok b → b = g a) {l : List α}
    {l' : List β} (hl : l.mapM f = .ok l') : l' = l.map g := by
  induction l generalizing l'
  case nil => cases hl; rfl
  case cons a l hi =>
    simp only [List.mapM_cons, bind_eq_ok, pure_eq_ok] at hl
    obtain ⟨b, hb, l', hl, rfl⟩ := hl
    rw [h a b hb, hi hl, List.map_cons]

theorem exists_mapM_eq_ok {f : α → Call β} {l : List α} :
    (∃ l', l.mapM f = .ok l') ↔ ∀ a ∈ l, ∃ b, f a = .ok b := by
  induction l
  case nil => simp [pure_eq_ok]
  case cons a l hi =>
    simp only [List.mapM_cons, bind_eq_ok, pure_eq_ok, List.forall_mem_cons, ← hi]
    constructor
    case mp  => exact fun ⟨_, b, hb, l', hl, _⟩ => ⟨⟨b, hb⟩, l', hl⟩
    case mpr => exact fun ⟨⟨b, hb⟩, l', hl⟩ => ⟨_, b, hb, l', hl, rfl⟩

theorem isOk_iff {x : Call α} : x.isOk = true ↔ ∃ a, x = .ok a := by
  cases x <;> simp [Except.isOk, Except.toBool]

theorem exists_of_isOk {x : Call α} (h : x.isOk = true) : ∃ a, x = .ok a := by
  cases x
  case ok a    => exact ⟨a, rfl⟩
  case error e => cases h

end Call

namespace Uint

-- The reason given by arithmetic which leaves its range.
def panic : String := "Panic(0x11)"

def cast (w n : ℕ) : Call (Uint w) :=
  if h : n < 2 ^ w then .ok ⟨n, h⟩ else .error panic

def add {w : ℕ} (a b : Uint w) : Call (Uint w) :=
  cast w (a + b)

def sub {w : ℕ} (a b : Uint w) : Call (Uint w) :=
  if b ≤ a then .ok ⟨a - b, lt_of_le_of_lt (Nat.sub_le _ _) a.isLt⟩ else .error panic

def mul {w : ℕ} (a b : Uint w) : Call (Uint w) :=
  cast w (a * b)

def div {w : ℕ} (a b : Uint w) : Call (Uint w) :=
  if (b : ℕ) ≠ 0 then .ok ⟨a / b, lt_of_le_of_lt (Nat.div_le_self _ _) a.isLt⟩
  else .error "Panic(0x12)"

-- The difference of words of different widths.
def diff (a b : ℕ) : Call ℕ :=
  if b ≤ a then .ok (a - b) else .error panic

def max (w : ℕ) : Uint w :=
  ⟨2 ^ w - 1, Nat.sub_lt (Nat.two_pow_pos w) Nat.one_pos⟩

-- Taking the lowest bits only, like the conversion `uint32(x)`.
def truncate (w n : ℕ) : Uint w :=
  ⟨n % 2 ^ w, Nat.mod_lt _ (Nat.two_pow_pos w)⟩

theorem cast_eq_ok {w n : ℕ} {c : Uint w} : cast w n = .ok c ↔ (c : ℕ) = n := by
  unfold cast
  split
  case isTrue h  => simp [Fin.ext_iff, eq_comm]
  case isFalse h =>
    have := c.isLt
    simp only [reduceCtorEq, false_iff]
    omega

theorem add_eq_ok {w : ℕ} {a b c : Uint w} : add a b = .ok c ↔ (c : ℕ) = a + b := by
  simp [add, cast_eq_ok]

theorem sub_eq_ok {w : ℕ} {a b c : Uint w} : sub a b = .ok c ↔ (c : ℕ) + b = a := by
  unfold sub
  split
  case isTrue h =>
    have : (b : ℕ) ≤ a := h
    simp only [Except.ok.injEq, Fin.ext_iff]
    omega
  case isFalse h =>
    have : ¬(b : ℕ) ≤ a := h
    simp only [reduceCtorEq, false_iff]
    omega

theorem mul_eq_ok {w : ℕ} {a b c : Uint w} : mul a b = .ok c ↔ (c : ℕ) = a * b := by
  simp [mul, cast_eq_ok]

theorem div_eq_ok {w : ℕ} {a b c : Uint w} :
    div a b = .ok c ↔ (b : ℕ) ≠ 0 ∧ (c : ℕ) = a / b := by
  unfold div
  split
  case isTrue h  => simp [h, Fin.ext_iff, eq_comm]
  case isFalse h => simp [h]

section Wrapping

-- Checked operations which succeed agree with those which wrap around.
variable {w : ℕ} {a b c : Uint w}

theorem add_of_ok (h : add a b = .ok c) : a + b = c :=
  Fin.ext (by rw [Fin.val_add, ← add_eq_ok.mp h, Nat.mod_eq_of_lt c.isLt])

theorem sub_of_ok (h : sub a b = .ok c) : a - b = c := by
  have h := sub_eq_ok.mp h
  exact Fin.ext (by rw [Fin.sub_val_of_le (Fin.le_def.mpr (by omega))]; omega)

theorem mul_of_ok (h : mul a b = .ok c) : a * b = c :=
  Fin.ext (by rw [Fin.val_mul, ← mul_eq_ok.mp h, Nat.mod_eq_of_lt c.isLt])

theorem div_of_ok (h : div a b = .ok c) : a / b = c :=
  Fin.ext (by rw [Fin.div_val, (div_eq_ok.mp h).right])

end Wrapping

theorem diff_eq_ok {a b c : ℕ} : diff a b = .ok c ↔ c + b = a := by
  unfold diff
  split
  case isTrue h  => simp only [Except.ok.injEq]; omega
  case isFalse h => simp only [reduceCtorEq, false_iff]; omega

theorem exists_sub {w : ℕ} {a b : Uint w} (h : b ≤ a) : ∃ c : Uint w, (c : ℕ) + b = a :=
  ⟨⟨a - b, (Nat.sub_le _ _).trans_lt a.isLt⟩, Nat.sub_add_cancel h⟩

@[simp]
theorem truncate_val (w n : ℕ) : (truncate w n : ℕ) = n % 2 ^ w :=
  rfl

theorem truncate_val_of_lt {w n : ℕ} (h : n < 2 ^ w) : (truncate w n : ℕ) = n :=
  Nat.mod_eq_of_lt h

end Uint
