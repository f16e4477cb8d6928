import YieldModel.Lib.Execution
import YieldModel.Objects.AccessControl
import YieldModel.Objects.ERC20

open Execution

structure Join where
  roles         : AccessControl
  asset         : Address
  storedBalance : Uint 256

namespace Join

-- A Join together with all tokens, by their addresses.
structure State where
  join   : Join
  tokens : Address → ERC20

namespace selector

def join     : Bytes4 := 0xceae3abd
def exit     : Bytes4 := 0x12e5ff77
def retrieve : Bytes4 := 0xf06c2dfc

end selector

def init (sender asset_ : Address) (tokens : Address → ERC20) : State where
  join   := { roles := .init sender, asset := asset_, storedBalance := 0 }
  tokens := tokens

def State.token (s : State) : ERC20 :=
  s.tokens s.join.asset

def State.balance (this : Address) (s : State) : ℕ :=
  s.token.balanceOf this

-- Takes `amount` from `user`, minus any unaccounted tokens. The addition is unchecked.
def _join (this : Address) (s : State) (user : Address) (amount : Uint 128) :
    Call (State × Uint 128) := do
  let _storedBalance := s.join.storedBalance
  let available ← Uint.diff (s.balance this) _storedBalance
  let storedBalance := Uint.truncate 256 (_storedBalance + amount)
  let token ← (if available < amount then
      s.token.transferFrom this user this (amount - available)
    else
      return s.token)
  return ({
    join   := { s.join with storedBalance }
    tokens := Function.update s.tokens s.join.asset token
  }, amount)

def join (this : Address) (s : State) (sender user : Address) (amount : Uint 128) :
    Call (State × Uint 128) := do
  s.join.roles.auth selector.join sender
  _join this s user amount

def _exit (this : Address) (s : State) (user : Address) (amount : Uint 128) :
    Call (State × Uint 128) := do
  let left ← Uint.diff s.join.storedBalance amount
  let storedBalance ← Uint.cast 256 left
  let token ← s.token.transfer this user amount
  return ({
    join   := { s.join with storedBalance }
    tokens := Function.update s.tokens s.join.asset token
  }, amount)

def exit (this : Address) (s : State) (sender user : Address) (amount : Uint 128) :
    Call (State × Uint 128) := do
  s.join.roles.auth selector.exit sender
  _exit this s user amount

def retrieve (this : Address) (s : State) (sender token to_ : Address) : Call State := do
  s.join.roles.auth selector.retrieve sender
  Call.require (token ≠ s.join.asset) "Use exit for asset"
  let t ← (s.tokens token).transfer this to_ ((s.tokens token).balanceOf this)
  return { s with tokens := Function.update s.tokens token t }

inductive Action
  | join (user : Address) (amount : Uint 128)
  | exit (user : Address) (amount : Uint 128)
  | retrieve (token to_ : Address)

def exec (this : Address) (s : State) (sender : Address) : Action → Call State
  | .join user amount   => Prod.fst <$> join this s sender user amount
  | .exit user amount   => Prod.fst <$> exit this s sender user amount
  | .retrieve token to_ => retrieve this s sender token to_

-- The steps of an execution in which all calls satisfy `P`. Others may do anything with the tokens
-- but take the asset from the Join.
inductive Step (this : Address) (P : State → Action → Prop) : State → State → Prop
  | call {s s' : State} {sender : Address} {a : Action} :
    P s a → exec this s sender a = .ok s' → Step this P s s'
  | roles {s : State} (r : AccessControl) : Step this P s { s with join.roles := r }
  | others {s : State} {t : Address → ERC20} :
    s.balance this ≤ (t s.join.asset).balanceOf this → Step this P s { s with tokens := t }

variable {this : Address} {s s' : State} {user : Address} {amount r : Uint 128}

-- What a successful `_join` does to the Join: `pulled` is what is missing of the amount.
structure State.Joins (this : Address) (s : State) (user : Address) (amount : Uint 128)
    (s' : State) : Prop where
  covered : s.join.storedBalance ≤ s.balance this
  stored  : s'.join.storedBalance = Uint.truncate 256 (s.join.storedBalance + amount)
  roles   : s'.join.roles = s.join.roles
  asset   : s'.join.asset = s.join.asset
  others  : ∀ token ≠ s.join.asset, s'.tokens token = s.tokens token
  enough  : (s.join.storedBalance : ℕ) + amount ≤ s.balance this → s'.token = s.token
  pulled  : s.balance this < (s.join.storedBalance : ℕ) + amount →
            s.token.balances.Transfers user this
              ((s.join.storedBalance : ℕ) + amount - s.balance this) s'.token.balances

structure State.Exits (this : Address) (s : State) (user : Address) (amount : Uint 128)
    (s' : State) : Prop where
  stored : (s'.join.storedBalance : ℕ) + amount = s.join.storedBalance
  roles  : s'.join.roles = s.join.roles
  asset  : s'.join.asset = s.join.asset
  others : ∀ token ≠ s.join.asset, s'.tokens token = s.tokens token
  sent   : s.token.balances.Transfers this user amount s'.token.balances

theorem join_eq_ok (h : _join this s user amount = .ok (s', r)) : s.Joins this user amount s' := by
  simp only [_join, Call.bind_eq_ok, Uint.diff_eq_ok, Call.pure_eq_ok, Prod.mk.injEq] at h
  obtain ⟨available, ha, token, ht, rfl, -⟩ := h
  have hk : State.token ⟨{ s.join with
      storedBalance := Uint.truncate 256 (s.join.storedBalance + amount) },
      Function.update s.tokens s.join.asset token⟩ = token := by
    simp [State.token]
  refine ⟨by omega, rfl, rfl, rfl, fun _ hn => by simp [hn], fun hl => ?_, fun hl => ?_⟩
  · rw [if_neg (by omega)] at ht
    exact hk.trans (Except.ok.inj ht).symm
  · rw [if_pos (by omega)] at ht
    have he : (s.join.storedBalance : ℕ) + amount - s.balance this = amount - available := by omega
    rw [hk, he]
    exact ERC20.transferFrom_eq_ok ht

theorem exit_eq_ok (h : _exit this s user amount = .ok (s', r)) : s.Exits this user amount s' := by
  simp only [_exit, Call.bind_eq_ok, Uint.diff_eq_ok, Uint.cast_eq_ok, Call.pure_eq_ok,
    Prod.mk.injEq] at h
  obtain ⟨left, hl, stored, hs, token, ht, rfl, -⟩ := h
  refine ⟨by dsimp only; omega, rfl, rfl, fun _ hn => by simp [hn], ?_⟩
  simpa [State.token] using ERC20.transfer_eq_ok ht

end Join
