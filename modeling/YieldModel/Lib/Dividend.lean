import Mathlib
import YieldModel.Lib.Execution
import YieldModel.Lib.Tally

-- Dividends which are paid to accounts in proportion to their weights. What one unit of weight has
-- earned so far is kept in an index, in units of `1 / p` and rounded down. An account remembers where
-- the index stood when it was settled last.

@[ext]
structure Dividend (κ : Type*) where
  index     : ℕ
  reserve   : ℕ
  indexOf   : κ → ℕ
  claimable : κ → ℕ

namespace Dividend

open Execution Tally

variable {κ : Type*} {d d' : Dividend κ} {v w : κ → ℕ} {p b n m supply : ℕ} {j k : κ}

def pending (p b : ℕ) (d : Dividend κ) (k : κ) : ℕ :=
  b * (d.index - d.indexOf k) / p

-- What an account of weight `b` gets if it claims.
def due (p b : ℕ) (d : Dividend κ) (k : κ) : ℕ :=
  d.claimable k + d.pending p b k

-- The same in units of `1 / p`, without rounding.
def debt (p b : ℕ) (d : Dividend κ) (k : κ) : ℕ :=
  d.claimable k * p + b * (d.index - d.indexOf k)

def receive (p supply n : ℕ) (d : Dividend κ) : Dividend κ :=
  { d with index := d.index + n * p / supply, reserve := d.reserve + n }

section Accounts

variable [DecidableEq κ]

def settle (p b : ℕ) (k : κ) (d : Dividend κ) : Dividend κ := { d with
  indexOf   := Function.update d.indexOf k d.index
  claimable := Function.update d.claimable k (d.due p b k)
}

def pay (p b : ℕ) (k : κ) (d : Dividend κ) : Dividend κ := { d with
  reserve   := d.reserve - d.due p b k
  indexOf   := Function.update d.indexOf k d.index
  claimable := Function.update d.claimable k 0
}

end Accounts

structure Valid (d : Dividend κ) : Prop where
  indexOf_le : ∀ k, d.indexOf k ≤ d.index

theorem due_eq_debt_div (hp : 0 < p) : d.due p b k = d.debt p b k / p := by
  rw [due, debt, pending, Nat.mul_comm (d.claimable k), Nat.mul_add_div hp]

theorem due_mul_le (p b : ℕ) (d : Dividend κ) (k : κ) : d.due p b k * p ≤ d.debt p b k := by
  have := Nat.div_mul_le_self (b * (d.index - d.indexOf k)) p
  rw [due, debt, pending, Nat.add_mul]
  omega

theorem lt_due_mul (hp : 0 < p) : d.debt p b k < d.due p b k * p + p := by
  rw [due_eq_debt_div hp]
  exact Nat.lt_div_mul_add hp

theorem debt_le_debt {c : ℕ} (h : b ≤ c ∨ d.indexOf k = d.index) : d.debt p b k ≤ d.debt p c k := by
  cases h
  case inl h => exact Nat.add_le_add_left (Nat.mul_le_mul_right _ h) _
  case inr h => simp [debt, h]

-- If only the index rises, then everybody is owed what it rises by for each unit of weight.
theorem debt_of_index_le (hd : d.Valid) (hi : d.index ≤ d'.index)
    (ho : d'.indexOf k = d.indexOf k) (hc : d'.claimable k = d.claimable k) :
    d'.debt p b k = d.debt p b k + b * (d'.index - d.index) := by
  have hk := hd.indexOf_le k
  have he : d'.index - d.indexOf k = d.index - d.indexOf k + (d'.index - d.index) := by omega
  rw [debt, debt, ho, hc, he, Nat.mul_add, Nat.add_assoc]

theorem debt_receive (hd : d.Valid) :
    (d.receive p supply n).debt p b k = d.debt p b k + b * (n * p / supply) := by
  have hi : d.index ≤ (d.receive p supply n).index := Nat.le_add_right ..
  rw [debt_of_index_le hd hi rfl rfl, receive, Nat.add_sub_cancel_left]

theorem receive_valid (hd : d.Valid) : (d.receive p supply n).Valid where
  indexOf_le k := (hd.indexOf_le k).trans (Nat.le_add_right ..)

section Accounts

variable [DecidableEq κ]

theorem settle_valid (hd : d.Valid) : (d.settle p b k).Valid where
  indexOf_le j := by
    by_cases h : j = k
    case pos => simp [settle, h]
    case neg => simpa [settle, h] using hd.indexOf_le j

theorem pay_valid (hd : d.Valid) : (d.pay p b k).Valid where
  indexOf_le := (settle_valid (p := p) (b := b) (k := k) hd).indexOf_le

theorem debt_settle_self {c : ℕ} : (d.settle p b k).debt p c k = d.due p b k * p := by
  simp [settle, debt]

theorem debt_pay_self {c : ℕ} : (d.pay p b k).debt p c k = 0 := by
  simp [pay, debt]

theorem debt_settle_of_ne {c : ℕ} (h : j ≠ k) : (d.settle p b k).debt p c j = d.debt p c j := by
  simp [settle, debt, h]

theorem debt_pay_of_ne {c : ℕ} (h : j ≠ k) : (d.pay p b k).debt p c j = d.debt p c j := by
  simp [pay, debt, h]

end Accounts

section Solvency

variable [Fintype κ]

-- The reserve suffices for everything that is owed, in whatever order it is claimed.
def Solvent (p : ℕ) (w : κ → ℕ) (d : Dividend κ) : Prop :=
  total (fun k => d.debt p (w k) k) ≤ d.reserve * p

theorem Solvent.total_due_le (h : d.Solvent p w) (hp : 0 < p) :
    total (fun k => d.due p (w k) k) ≤ d.reserve := by
  apply Nat.le_of_mul_le_mul_right _ hp
  calc
    _ = total fun k => d.due p (w k) k * p := Finset.sum_mul ..
    _ ≤ total fun k => d.debt p (w k) k    := Finset.sum_le_sum fun k _ => due_mul_le p (w k) d k
    _ ≤ _                                  := h

theorem Solvent.due_le (h : d.Solvent p w) (hp : 0 < p) : d.due p (w k) k ≤ d.reserve :=
  (le_total (fun k => d.due p (w k) k) k).trans (h.total_due_le hp)

-- Weights may change at any time, as long as they only rise for accounts which are up to date.
theorem Solvent.reweigh (h : d.Solvent p v) (hw : ∀ k, w k ≤ v k ∨ d.indexOf k = d.index) :
    d.Solvent p w :=
  (Finset.sum_le_sum fun k _ => debt_le_debt (hw k)).trans h

-- The index rises by what is received for each unit of the supply, so nothing more is owed to those
-- who make up at most the supply.
theorem Solvent.receive (h : d.Solvent p w) (hd : d.Valid) (hw : total w ≤ supply) :
    (d.receive p supply n).Solvent p w := by
  have hi := Nat.div_mul_le_self (n * p) supply
  have hm := Nat.mul_le_mul_right (n * p / supply) hw
  have ht : total (fun k => (d.receive p supply n).debt p (w k) k) =
      total (fun k => d.debt p (w k) k) + total w * (n * p / supply) := by
    simp only [debt_receive hd, total, Finset.sum_add_distrib, Finset.sum_mul]
  have h : total (fun k => d.debt p (w k) k) ≤ d.reserve * p := h
  rw [Solvent, ht, Dividend.receive, Nat.add_mul]
  linarith

variable [DecidableEq κ]

theorem Solvent.settle (h : d.Solvent p w) : (d.settle p (w k) k).Solvent p w := by
  refine (Finset.sum_le_sum fun j _ => ?_).trans h
  by_cases hj : j = k
  case pos => rw [hj, debt_settle_self]; exact due_mul_le ..
  case neg => rw [debt_settle_of_ne hj]

theorem Solvent.pay (h : d.Solvent p w) : (d.pay p (w k) k).Solvent p w := by
  have ht := total_of_agree (f := fun j => (d.pay p (w k) k).debt p (w j) j)
    (g := fun j => d.debt p (w j) j) k fun j hj => debt_pay_of_ne hj
  have hk := due_mul_le p (w k) d k
  have h : total (fun k => d.debt p (w k) k) ≤ d.reserve * p := h
  simp only [debt_pay_self, Nat.add_zero] at ht
  rw [Solvent, show (d.pay p (w k) k).reserve = d.reserve - d.due p (w k) k from rfl, Nat.sub_mul]
  omega

end Solvency

-- No index ever falls.
structure Advances (d d' : Dividend κ) : Prop where
  index_le   : d.index ≤ d'.index
  indexOf_le : ∀ k, d.indexOf k ≤ d'.indexOf k

namespace Advances

instance : Std.Refl (Advances (κ := κ)) where
  refl _ := ⟨le_rfl, fun _ => le_rfl⟩

instance : IsTrans (Dividend κ) Advances where
  trans _ _ _ h h' := ⟨h.index_le.trans h'.index_le,
    fun k => (h.indexOf_le k).trans (h'.indexOf_le k)⟩

variable [DecidableEq κ]

theorem settle (hd : d.Valid) : d.Advances (d.settle p b k) where
  index_le := le_rfl
  indexOf_le j := by
    by_cases h : j = k
    case pos => simpa [Dividend.settle, h] using hd.indexOf_le k
    case neg => simp [Dividend.settle, h]

theorem pay (hd : d.Valid) : d.Advances (d.pay p b k) where
  index_le   := le_rfl
  indexOf_le := (settle (p := p) (b := b) hd).indexOf_le

end Advances

-- An account of weight `b` which is not paid anything: what it is owed follows the index, up to one
-- unit for every time that it is settled.
structure Erodes (p b : ℕ) (k : κ) (n : ℕ) (d d' : Dividend κ) : Prop where
  index_le : d.index ≤ d'.index
  le       : d'.debt p b k ≤ d.debt p b k + b * (d'.index - d.index)
  ge       : d.debt p b k + b * (d'.index - d.index) ≤ d'.debt p b k + n * (p - 1)

namespace Erodes

theorem rfl' : Erodes p b k 0 d d := by
  constructor <;> simp

theorem trans {d'' : Dividend κ} (h : Erodes p b k n d d') (h' : Erodes p b k m d' d'') :
    Erodes p b k (n + m) d d'' := by
  have hi := h.index_le
  have hi' := h'.index_le
  have hs : b * (d''.index - d.index) = b * (d'.index - d.index) + b * (d''.index - d'.index) := by
    rw [← Nat.mul_add]
    congr 1
    omega
  have := h.le
  have := h.ge
  have := h'.le
  have := h'.ge
  refine ⟨hi.trans hi', ?_, ?_⟩ <;> rw [hs]
  · omega
  · rw [Nat.add_mul]
    omega

theorem mono (h : Erodes p b k n d d') (hm : n ≤ m) : Erodes p b k m d d' :=
  { h with ge := h.ge.trans (Nat.add_le_add_left (Nat.mul_le_mul_right _ hm) _) }

theorem of_index_eq (hi : d'.index = d.index) (hl : d'.debt p b k ≤ d.debt p b k)
    (hg : d.debt p b k ≤ d'.debt p b k + n * (p - 1)) : Erodes p b k n d d' :=
  ⟨hi.ge, by simpa [hi] using hl, by simpa [hi] using hg⟩

theorem of_index_le (hd : d.Valid) (hi : d.index ≤ d'.index) (ho : d'.indexOf k = d.indexOf k)
    (hc : d'.claimable k = d.claimable k) : Erodes p b k 0 d d' := by
  have he : d'.debt p b k = _ := debt_of_index_le hd hi ho hc
  exact ⟨hi, he.le, by omega⟩

-- What the account would be due if it had not been settled at all.
theorem due_le (h : Erodes p b k n d d') (hp : 0 < p) (hd : d.Valid) :
    d'.due p b k ≤ ({ d with index := d'.index } : Dividend κ).due p b k := by
  have he : ({ d with index := d'.index } : Dividend κ).debt p b k = _ :=
    debt_of_index_le hd h.index_le rfl rfl
  rw [due_eq_debt_div hp, due_eq_debt_div hp, he]
  exact Nat.div_le_div_right h.le

theorem le_due_add (h : Erodes p b k n d d') (hp : 0 < p) (hd : d.Valid) :
    ({ d with index := d'.index } : Dividend κ).due p b k ≤ d'.due p b k + n := by
  have he : ({ d with index := d'.index } : Dividend κ).debt p b k = _ :=
    debt_of_index_le hd h.index_le rfl rfl
  have hl : n * (p - 1) ≤ n * p := Nat.mul_le_mul_left n (Nat.sub_le p 1)
  rw [due_eq_debt_div hp, due_eq_debt_div hp, he, ← Nat.add_mul_div_right _ _ hp]
  exact Nat.div_le_div_right (h.ge.trans (Nat.add_le_add_left hl _))

variable [DecidableEq κ]

theorem settle (hp : 0 < p) : Erodes p b k 1 d (d.settle p b k) := by
  have hl := due_mul_le p b d k
  have hg := lt_due_mul (d := d) (b := b) (k := k) hp
  refine of_index_eq rfl ?_ ?_ <;> rw [debt_settle_self]
  · exact hl
  · omega

theorem settle_of_ne {c : ℕ} (h : k ≠ j) : Erodes p b k 0 d (d.settle p c j) :=
  of_index_eq rfl (debt_settle_of_ne h).le (Nat.le_add_right_of_le (debt_settle_of_ne h).ge)

theorem pay_of_ne {c : ℕ} (h : k ≠ j) : Erodes p b k 0 d (d.pay p c j) :=
  of_index_eq rfl (debt_pay_of_ne h).le (Nat.le_add_right_of_le (debt_pay_of_ne h).ge)

end Erodes

end Dividend
