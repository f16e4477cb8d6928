import YieldModel.Lib.Ledger
import YieldModel.Objects.Basic

-- A token which moves exactly what it is told to, and asks for no approval by the sender itself. An
-- approval of the largest amount is never used up.
structure ERC20 where
  balances  : Ledger 256 Address
  allowance : Address → Address → Uint 256

namespace ERC20

def balanceOf (t : ERC20) (guy : Address) : ℕ :=
  t.balances.balanceOf guy

def _setAllowance (t : ERC20) (owner spender : Address) (wad : Uint 256) : ERC20 :=
  { t with allowance :=
      Function.update t.allowance owner (Function.update (t.allowance owner) spender wad) }

def _transfer (t : ERC20) (src dst : Address) (wad : ℕ) : Call ERC20 := do
  Call.require (wad ≤ t.balanceOf src) "ERC20: Insufficient balance"
  let balances ← t.balances.transfer src dst wad
  return { t with balances }

def _decreaseAllowance (t : ERC20) (sender src : Address) (wad : ℕ) : Call ERC20 :=
  let allowed := t.allowance src sender
  if src ≠ sender ∧ allowed ≠ Uint.max 256 then do
    Call.require (wad ≤ allowed) "ERC20: Insufficient approval"
    return t._setAllowance src sender (Uint.truncate 256 (allowed - wad))
  else
    return t

def transfer (t : ERC20) (sender dst : Address) (wad : ℕ) : Call ERC20 :=
  t._transfer sender dst wad

def transferFrom (t : ERC20) (sender src dst : Address) (wad : ℕ) : Call ERC20 := do
  let t ← t._decreaseAllowance sender src wad
  t._transfer src dst wad

variable {t t' : ERC20} {sender src dst : Address} {wad : ℕ}

theorem transfer_eq_ok (h : t._transfer src dst wad = .ok t') :
    t.balances.Transfers src dst wad t'.balances := by
  simp only [_transfer, Call.bind_eq_ok, Call.pure_eq_ok] at h
  obtain ⟨_, -, l, hl, rfl⟩ := h
  exact Ledger.transfer_eq_ok hl

theorem decreaseAllowance_eq_ok (h : t._decreaseAllowance sender src wad = .ok t') :
    t'.balances = t.balances := by
  simp only [_decreaseAllowance] at h
  split at h <;> simp only [Call.bind_eq_ok, Call.pure_eq_ok] at h
  case isTrue =>
    obtain ⟨_, -, rfl⟩ := h
    rfl
  case isFalse => rw [h]

theorem transferFrom_eq_ok (h : t.transferFrom sender src dst wad = .ok t') :
    t.balances.Transfers src dst wad t'.balances := by
  simp only [transferFrom, Call.bind_eq_ok] at h
  obtain ⟨_, ha, h⟩ := h
  exact decreaseAllowance_eq_ok ha ▸ transfer_eq_ok h

end ERC20
