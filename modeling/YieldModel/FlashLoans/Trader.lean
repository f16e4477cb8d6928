import YieldModel.FlashLoans.Basic

open Reentrancy Execution FlashLoans

namespace Trader

inductive Trade
  | SELLFYTOKEN
  | BUYBASE
  deriving DecidableEq

structure Abi (Bytes : Type) where
  encode : Trade → (pool : Address) → (baseOut limit : Uint 128) → Bytes
  decode : Bytes → Call (Trade × Address × Uint 128 × Uint 128)

structure Storage where
  roles : AccessControl
  init  : Uint 256

inductive Entry (Bytes : Type)
  | roles (a : AccessControl.Action)
  | authorize (grantee : Address)
  | retrieve (token : Address)
  | sellFYToken (pool : Address) (fySold minBaseOut : Uint 128)
  | buyBase (pool : Address) (baseBought maxFyIn : Uint 128)
  | onFlashLoan (initiator token : Address) (amount fee : Uint 256) (data : Bytes)

namespace selector

def authorize   : Bytes4 := 0xb6a5d7de
def retrieve    : Bytes4 := 0x0a79309b
def sellFYToken : Bytes4 := 0x2110cefe
def buyBase     : Bytes4 := 0x9ebdc9b4

end selector

-- A Trader: its address, its lender, and the contracts around it.
structure Setting (Bytes ω : Type) where
  this   : Address
  lender : Address
  abi    : Abi Bytes
  views  : Views ω

variable {Bytes ω : Type}

abbrev M (Bytes ω : Type) :=
  Code Storage ω (Msg Bytes) (Option (Uint 256))

def auth (sig : Bytes4) (sender : Address) : M Bytes ω Unit := do
  let s ← .read
  .ofCall (s.roles.auth sig sender)

def _authorize (c : AccessControl) (grantee : Address) : AccessControl :=
  (((c._grantRole selector.authorize grantee)._grantRole selector.retrieve grantee)._grantRole
    selector.sellFYToken grantee)._grantRole selector.buyBase grantee

-- The storage after construction by `sender`.
def created (sender : Address) : Storage where
  roles := _authorize (.init sender) sender
  init  := 0

def authorize (sender grantee : Address) : M Bytes ω (Option (Uint 256)) := do
  auth selector.authorize sender
  .update fun s => { s with roles := _authorize s.roles grantee }
  return none

-- Drain this contract of a given token.
def retrieve (T : Setting Bytes ω) (sender token : Address) : M Bytes ω (Option (Uint 256)) := do
  auth selector.retrieve sender
  let amount ← .look (T.views.balanceOf · token T.this)
  let _ ← .send (.own (.transfer token sender amount))
  return some amount

-- Execute an base flash loan and with it, mint fyToken and sell them to a pool
def sellFYToken (T : Setting Bytes ω) (sender pool : Address) (fySold minBaseOut : Uint 128) :
    M Bytes ω (Option (Uint 256)) := do
  auth selector.sellFYToken sender
  let base ← .look (T.views.base · pool)
  -- We use this as a semaphore, and to retrieve return data
  let balance ← .look (T.views.balanceOf · base T.this)
  .update fun s => { s with init := balance }
  let _ ← .send (.own (.flashLoan T.lender T.this base (toUint256 fySold)
    (T.abi.encode .SELLFYTOKEN pool 0 minBaseOut)))
  let s ← .read
  let balance ← .look (T.views.balanceOf · base T.this)
  let cost ← .ofCall (Uint.sub s.init balance)
  .update fun s => { s with init := 0 }
  return some cost

-- Execute an base flash loan and with it, mint fyToken and buy base from a pool
def buyBase (T : Setting Bytes ω) (sender pool : Address) (baseBought maxFyIn : Uint 128) :
    M Bytes ω (Option (Uint 256)) := do
  auth selector.buyBase sender
  let base ← .look (T.views.base · pool)
  let balance ← .look (T.views.balanceOf · base T.this)
  .update fun s => { s with init := balance }
  let fySold ← .look (T.views.buyBasePreview · pool baseBought)
  let _ ← .send (.own (.flashLoan T.lender T.this base (toUint256 fySold)
    (T.abi.encode .BUYBASE pool baseBought maxFyIn)))
  let s ← .read
  let balance ← .look (T.views.balanceOf · base T.this)
  let cost ← .ofCall (Uint.sub s.init balance)
  .update fun s => { s with init := 0 }
  return some cost

def onFlashLoan (T : Setting Bytes ω) (sender token : Address) (amount : Uint 256) (data : Bytes) :
    M Bytes ω (Option (Uint 256)) := do
  let s ← .read
  .require (s.init ≠ 0) "Unauthorized"
  let (trade, pool, baseOut, limit) ← .ofCall (T.abi.decode data)
  let fyToken ← .look (T.views.fyToken · pool)
  let base ← .look (T.views.base · pool)
  .require (base = token) "Mismatched pool"
  -- Get join from fyToken
  let join ← .look (T.views.join · fyToken)
  -- Approve the lender to take any funds
  let _ ← .send (.callback sender (.approve token sender (.max 256)))
  -- We mint fyToken at 1:1
  let _ ← .send (.callback sender (.safeTransfer base join amount))
  let _ ← .send (.callback sender (.mintWithUnderlying fyToken pool amount))
  -- We sell the fyToken to repay the flash loan
  let _ ← .send (.callback sender
    (if trade = .SELLFYTOKEN then .sellFYToken pool T.this limit
     else .buyBase pool T.this baseOut limit))
  return some CALLBACK_SUCCESS

def roles (sender : Address) (a : AccessControl.Action) : M Bytes ω (Option (Uint 256)) := do
  let s ← .read
  let roles ← .ofCall (s.roles.exec sender a)
  .update fun s => { s with roles }
  return none

def contract (T : Setting Bytes ω) :
    Contract Address (Entry Bytes) Storage ω (Msg Bytes) (Option (Uint 256)) where
  this        := T.this
  target k    := k.request.target
  body e sender :=
    match e with
    | .roles a                             => roles sender a
    | .authorize grantee                   => authorize sender grantee
    | .retrieve token                      => retrieve T sender token
    | .sellFYToken pool fySold minBaseOut  => sellFYToken T sender pool fySold minBaseOut
    | .buyBase pool baseBought maxFyIn     => buyBase T sender pool baseBought maxFyIn
    | .onFlashLoan _ token amount _ data   => onFlashLoan T sender token amount data

end Trader
