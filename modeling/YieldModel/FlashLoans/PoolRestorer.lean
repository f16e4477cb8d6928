import YieldModel.FlashLoans.Basic

open Reentrancy FlashLoans

namespace PoolRestorer

-- How `restore` encodes its data, and how `onFlashLoan` decodes it.
structure Abi (Bytes : Type) where
  encode : (pool fyToken : Address) → (underlyingId : Bytes6) → (receiver : Address) → Bytes
  decode : Bytes → Call (Address × Address × Bytes6 × Address)

structure Storage where
  roles : AccessControl
  ladle : Address

inductive Entry (Bytes : Type)
  | roles (a : AccessControl.Action)
  | restore (seriesId : Bytes6) (receiver : Address) (amount : Uint 256)
  | onFlashLoan (initiator token : Address) (amount fee : Uint 256) (data : Bytes)

namespace selector

def restore : Bytes4 := 0xe6164b70

end selector

-- A PoolRestorer: its address, and the contracts around it.
structure Setting (Bytes ω : Type) where
  this  : Address
  abi   : Abi Bytes
  views : Views ω

variable {Bytes ω : Type}

def Abi.Decodes (abi : Abi Bytes) : Prop :=
  ∀ pool fyToken underlyingId receiver, abi.decode (abi.encode pool fyToken underlyingId receiver) =
    .ok (pool, fyToken, underlyingId, receiver)

abbrev M (Bytes ω : Type) :=
  Code Storage ω (Msg Bytes) (Option (Uint 256))

-- The storage after construction by `sender`.
def created (sender ladle : Address) : Storage where
  roles := .init sender
  ladle := ladle

-- Permissioned entry point to `restore`
def restore (P : Setting Bytes ω) (sender : Address) (seriesId : Bytes6) (receiver : Address)
    (amount : Uint 256) : M Bytes ω (Option (Uint 256)) := do
  let s ← .read
  .ofCall (s.roles.auth selector.restore sender)
  let pool ← .look (P.views.pools · s.ladle seriesId)
  let fyToken ← .look (P.views.fyToken · pool)
  let underlyingId ← .look (P.views.underlyingId · fyToken)
  let join ← .look (P.views.joins · s.ladle underlyingId)
  let data := P.abi.encode pool fyToken underlyingId receiver
  let asset ← .look (P.views.asset · join)
  let _ ← .send (.own (.flashLoan join P.this asset amount data))
  return none

-- This function can mint fyToken out of thin air, so we need to trust that it can only be called by
-- authorized accounts.
def onFlashLoan (P : Setting Bytes ω) (sender initiator token : Address) (amount fee : Uint 256)
    (data : Bytes) : M Bytes ω (Option (Uint 256)) := do
  let s ← .read
  let (pool, fyToken, underlyingId, receiver) ← .ofCall (P.abi.decode data)
  -- Verify that the lender is a trusted contract, and that the flash loan was initiated by this
  -- contract
  let join ← .look (P.views.joins · s.ladle underlyingId)
  .require (¬(sender ≠ join ∨ initiator ≠ P.this)) "FlashLoanFailure"
  -- Now that we trust the lender, we approve the flash loan repayment
  let repayment ← .ofCall (Uint.add amount fee)
  let _ ← .send (.callback sender (.safeApprove token sender repayment))
  -- Transfer the tokens to the pool, mint fyTokens, and buyBase
  let _ ← .send (.callback sender (.safeTransfer token pool amount))
  let _ ← .send (.callback sender (.mint pool receiver P.this 0 (.max 256)))
  let base ← .ofCall (Uint.cast 128 amount)
  let fyTokenAmount ← .look (P.views.buyBasePreview · pool base)
  let _ ← .send (.callback sender (.mintFYToken fyToken pool (toUint256 fyTokenAmount)))
  let _ ← .send (.callback sender (.buyBase pool P.this base fyTokenAmount))
  return some CALLBACK_SUCCESS

def roles (sender : Address) (a : AccessControl.Action) : M Bytes ω (Option (Uint 256)) := do
  let s ← .read
  let roles ← .ofCall (s.roles.exec sender a)
  .update fun s => { s with roles }
  return none

def contract (P : Setting Bytes ω) :
    Contract Address (Entry Bytes) Storage ω (Msg Bytes) (Option (Uint 256)) where
  this     := P.this
  target k := k.request.target
  body e sender :=
    match e with
    | .roles a => roles sender a
    | .restore seriesId receiver amount => restore P sender seriesId receiver amount
    | .onFlashLoan initiator token amount fee data =>
      onFlashLoan P sender initiator token amount fee data

end PoolRestorer
