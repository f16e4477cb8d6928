import YieldModel.FlashLoans.Basic

open Reentrancy Execution FlashLoans

-- This contract solves the problem of Joins being underfunded to support a strategy roll.
namespace Roller

-- `_strategy` is the strategy being rolled, also used to denote that access control was passed.
structure Storage where
  roles     : AccessControl
  _strategy : Address

inductive Entry (Bytes : Type)
  | roles (a : AccessControl.Action)
  | roll (strategy : Address) (maxLoan : Uint 256) (lender remainder : Address)
  | onFlashLoan (initiator token : Address) (amount fee : Uint 256) (data : Bytes)

namespace selector

def roll : Bytes4 := 0xaf5d98a6

end selector

-- A Roller: its address, its Ladle, and the contracts around it.
structure Setting (Bytes ω : Type) where
  this  : Address
  ladle : Address
  empty : Bytes
  views : Views ω

variable {Bytes ω : Type}

abbrev M (Bytes ω : Type) :=
  Code Storage ω (Msg Bytes) (Option (Uint 256))

-- The storage after construction by `sender`.
def created (sender : Address) : Storage where
  roles     := .init sender
  _strategy := 0

def onFlashLoan (R : Setting Bytes ω) (sender token : Address) (amount fee : Uint 256) :
    M Bytes ω (Option (Uint 256)) := do
  let s ← .read
  let strategy := s._strategy
  .require (strategy ≠ 0) "Unauthorized roll"
  -- Get join from strategy and ladle
  let baseId ← .look (R.views.baseId · strategy)
  let join ← .look (R.views.joins · R.ladle baseId)
  .require (join ≠ 0) "Join not found"
  -- Get pool from strategy
  let pool ← .look (R.views.nextPool · strategy)
  .require (pool ≠ 0) "Pool not ready"
  -- Get fyToken from pool
  let fyToken ← .look (R.views.fyToken · pool)
  -- If a loan was requested, we fund the join by minting fyToken
  if 0 < amount then
    let _ ← .send (.callback sender (.safeTransfer token join amount))
    let _ ← .send (.callback sender (.mintWithUnderlying fyToken R.this amount))
  -- Roll the pool
  let _ ← .send (.callback sender (.endPool strategy))
  let _ ← .send (.callback sender (.startPool strategy 0 (.max 256)))
  -- If a loan was requested, we sell the fyToken to repay it
  if 0 < amount then
    let _ ← .send (.callback sender (.transfer fyToken pool amount))
    let _ ← .send (.callback sender (.sellFYToken pool R.this 0))
    let repayment ← .ofCall (Uint.add amount fee)
    let _ ← .send (.callback sender (.approve token sender repayment))
  return some CALLBACK_SUCCESS

-- Initiate a strategy roll. Without a loan, the Roller calls `onFlashLoan` itself.
def roll (R : Setting Bytes ω) (sender strategy : Address) (maxLoan : Uint 256)
    (lender remainder : Address) : M Bytes ω (Option (Uint 256)) := do
  let s ← .read
  .ofCall (s.roles.auth selector.roll sender)
  -- Get pool from strategy
  let pool ← .look (R.views.pool · strategy)
  .require (pool ≠ 0) "Strategy not active"
  let base ← .look (R.views.base · pool)
  let fyToken ← .look (R.views.fyToken · pool)
  let toRedeem ← .look (R.views.balanceOf · fyToken pool)
  let loan := if maxLoan < toRedeem then maxLoan else toRedeem
  -- Enter the loan and roll
  .update fun s => { s with _strategy := strategy }
  let _ ←
    if 0 < loan then .send (.own (.flashLoan lender R.this base loan R.empty))
    else onFlashLoan R R.this base 0 0
  -- Whatever is left after repaying the loan, we return it
  let balance ← .look (R.views.balanceOf · base R.this)
  let _ ← .send (.own (.safeTransfer base remainder balance))
  .update fun s => { s with _strategy := 0 }
  return none

def roles (sender : Address) (a : AccessControl.Action) : M Bytes ω (Option (Uint 256)) := do
  let s ← .read
  let roles ← .ofCall (s.roles.exec sender a)
  .update fun s => { s with roles }
  return none

def contract (R : Setting Bytes ω) :
    Contract Address (Entry Bytes) Storage ω (Msg Bytes) (Option (Uint 256)) where
  this     := R.this
  target k := k.request.target
  body e sender :=
    match e with
    | .roles a                                => roles sender a
    | .roll strategy maxLoan lender remainder => roll R sender strategy maxLoan lender remainder
    | .onFlashLoan _ token amount fee _       => onFlashLoan R sender token amount fee

end Roller
