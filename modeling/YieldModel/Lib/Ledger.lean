import Mathlib
import YieldModel.Lib.Checked
import YieldModel.Lib.Tally

open Tally

-- The balances of a token. The balances of all accounts always add up to the total supply, which is
-- a word of `w` bits, so no balance can overflow unless the supply does.
structure Ledger (w : ℕ) (κ : Type) [Fintype κ] where
  balanceOf   : κ → ℕ
  totalSupply : Uint w
  total_eq    : total balanceOf = totalSupply

namespace Ledger

variable {w n : ℕ} {κ : Type} [Fintype κ] {l l' : Ledger w κ} {j k : κ}

theorem balanceOf_le (l : Ledger w κ) (k : κ) : l.balanceOf k ≤ l.totalSupply :=
  l.total_eq ▸ le_total l.balanceOf k

def empty (w : ℕ) (κ : Type) [Fintype κ] : Ledger w κ where
  balanceOf _ := 0
  totalSupply := 0
  total_eq    := by simp [total_eq_zero]

variable [DecidableEq κ]

def mint (l : Ledger w κ) (k : κ) (n : ℕ) : Call (Ledger w κ) :=
  if h : l.totalSupply + n < 2 ^ w then
    .ok {
      balanceOf   := Function.update l.balanceOf k (l.balanceOf k + n)
      totalSupply := ⟨l.totalSupply + n, h⟩
      total_eq    := by
        have := total_update l.balanceOf k (l.balanceOf k + n)
        have := l.total_eq
        dsimp only
        omega
    }
  else
    .error Uint.panic

def burn (l : Ledger w κ) (k : κ) (n : ℕ) : Call (Ledger w κ) :=
  if h : n ≤ l.balanceOf k then
    .ok {
      balanceOf   := Function.update l.balanceOf k (l.balanceOf k - n)
      totalSupply := ⟨l.totalSupply - n, lt_of_le_of_lt (Nat.sub_le ..) l.totalSupply.isLt⟩
      total_eq    := by
        have := total_update l.balanceOf k (l.balanceOf k - n)
        have := l.balanceOf_le k
        have := l.total_eq
        dsimp only
        omega
    }
  else
    .error Uint.panic

def moved (f : κ → ℕ) (j k : κ) (n : ℕ) : κ → ℕ :=
  let g := Function.update f j (f j - n)
  Function.update g k (g k + n)

def transfer (l : Ledger w κ) (src dst : κ) (n : ℕ) : Call (Ledger w κ) :=
  if h : n ≤ l.balanceOf src then
    .ok {
      balanceOf   := moved l.balanceOf src dst n
      totalSupply := l.totalSupply
      total_eq    := by
        have := total_update l.balanceOf src (l.balanceOf src - n)
        have := total_update (Function.update l.balanceOf src (l.balanceOf src - n)) dst
          (Function.update l.balanceOf src (l.balanceOf src - n) dst + n)
        have := l.total_eq
        simp only [moved]
        omega
    }
  else
    .error Uint.panic

-- What the operations do, for as long as they do not revert.

structure Mints (l : Ledger w κ) (k : κ) (n : ℕ) (l' : Ledger w κ) : Prop where
  supply  : (l'.totalSupply : ℕ) = l.totalSupply + n
  balance : l'.balanceOf k = l.balanceOf k + n
  others  : ∀ j ≠ k, l'.balanceOf j = l.balanceOf j

structure Burns (l : Ledger w κ) (k : κ) (n : ℕ) (l' : Ledger w κ) : Prop where
  supply  : (l'.totalSupply : ℕ) + n = l.totalSupply
  balance : l'.balanceOf k + n = l.balanceOf k
  others  : ∀ j ≠ k, l'.balanceOf j = l.balanceOf j

structure Transfers (l : Ledger w κ) (j k : κ) (n : ℕ) (l' : Ledger w κ) : Prop where
  supply   : l'.totalSupply = l.totalSupply
  covered  : n ≤ l.balanceOf j
  sent     : j ≠ k → l'.balanceOf j + n = l.balanceOf j
  received : j ≠ k → l'.balanceOf k = l.balanceOf k + n
  self     : j = k → l'.balanceOf j = l.balanceOf j
  others   : ∀ i ≠ j, i ≠ k → l'.balanceOf i = l.balanceOf i

theorem mint_eq_ok (h : l.mint k n = .ok l') : l.Mints k n l' := by
  unfold mint at h
  split at h <;> cases h
  exact ⟨rfl, by simp, fun j hj => by simp [hj]⟩

theorem burn_eq_ok (h : l.burn k n = .ok l') : l.Burns k n l' := by
  unfold burn at h
  split at h <;> cases h
  case isTrue h =>
    have := l.balanceOf_le k
    exact ⟨by dsimp only; omega, by simp [h], fun j hj => by simp [hj]⟩

theorem transfer_eq_ok (h : l.transfer j k n = .ok l') : l.Transfers j k n l' := by
  unfold transfer at h
  split at h <;> cases h
  case isTrue h =>
    exact {
      supply   := rfl
      covered  := h
      sent     := fun hn => by simp [moved, hn, h]
      received := fun hn => by simp [moved, hn.symm]
      self     := fun he => by subst he; simp [moved, h]
      others   := fun i hj hk => by simp [moved, hj, hk]
    }

theorem burn_ok (h : n ≤ l.balanceOf k) : ∃ l', l.burn k n = .ok l' := by
  simp [burn, h]

theorem transfer_ok (k : κ) (h : n ≤ l.balanceOf j) : ∃ l', l.transfer j k n = .ok l' := by
  simp [transfer, h]

-- Nothing gets lost for the sender but the amount.
theorem Transfers.le_add (h : l.Transfers j k n l') : l.balanceOf j ≤ l'.balanceOf j + n := by
  by_cases hk : j = k
  case neg => exact (h.sent hk).ge
  case pos => exact (h.self hk).ge.trans (Nat.le_add_right ..)

end Ledger
