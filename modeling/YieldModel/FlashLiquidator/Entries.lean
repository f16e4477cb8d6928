import YieldModel.Lib.CallTree
import YieldModel.FlashLiquidator.Basic

open CallTree FlashLiquidator

-- The flash liquidator among contracts which may call it again while it waits for an answer.

namespace FlashLiquidator.Entries

structure Loan (Bytes : Type) where
  recipient : Address
  tokens    : List Address
  amounts   : List (Uint 256)
  userData  : Bytes
  deriving DecidableEq

inductive Message (Bytes : Type)
  | liquidate (vaultId : Bytes12) (swapCalldata : List UInt8)
  | receiveFlashLoan (tokens : List Address) (amounts feeAmounts : List (Uint 256))
      (userData : Bytes)
  | collateralToDebtRatio (vaultId : Bytes12)
  | flashLoan (loan : Loan Bytes)
  | approve (to_ : Address) (value : Uint 256)
  | transfer (to_ : Address) (value : Uint 256)
  | payAll (vaultId : Bytes12) (min : Uint 128)
  | get (base quote : Bytes6) (amount : Uint 256)
  | other (data : List UInt8)
  deriving DecidableEq

-- How the data for the callback are encoded and decoded.
structure Abi (Bytes : Type) where
  encode : FlashCallbackData → Bytes
  decode : Bytes → Call FlashCallbackData

def Abi.Decodes {Bytes : Type} (abi : Abi Bytes) : Prop :=
  ∀ data, abi.decode (abi.encode data) = .ok data

@[ext]
structure Storage where
  liquidating : Bool
  deriving DecidableEq

-- A FlashLiquidator: its address, its constants, and what other contracts answer when something is
-- looked up, which changes nothing. `message` is the message that is sent by calldata.
structure Setting (Bytes ω : Type) where
  this         : Address
  witch        : Address
  swapRouter02 : Address
  flashLoaner  : Address
  abi          : Abi Bytes
  message      : List UInt8 → Message Bytes
  views        : ω → Context
  spotOracles  : ω → Bytes6 → Bytes6 → Call Address
  balanceOf    : ω → (token account : Address) → Call (Uint 256)

-- The words which a call returns.
abbrev Answer := List (Uint 256)

variable {Bytes ω : Type}

abbrev M (Bytes ω : Type) :=
  Code Storage ω (Address × Message Bytes) Answer

def created : Storage where
  liquidating := false

def safeTransfer (token to_ : Address) (value : Uint 256) : M Bytes ω Unit := do
  let data ← .send (token, .transfer to_ value)
  .require (data = [] ∨ data.head? = some 1) "ST"

def safeApprove (token to_ : Address) (value : Uint 256) : M Bytes ω Unit := do
  let data ← .send (token, .approve to_ value)
  .require (data = [] ∨ data.head? = some 1) "SA"

-- The first one of the `n` words which a call returns.
def firstWord (n : ℕ) (answer : Answer) : Call (Uint 256) := do
  Call.require (n ≤ answer.length) ""
  index answer 0

def collateralToDebtRatio (F : Setting Bytes ω) (vaultId : Bytes12) : M Bytes ω Answer := do
  let vault ← .look fun w => (F.views w).vaults vaultId
  let balances ← .look fun w => (F.views w).balances vaultId
  let series ← .look fun w => (F.views w).series vault.seriesId
  if balances.art = 0 then
    return [0]
  else
    let oracle ← .look (F.spotOracles · series.baseId vault.ilkId)
    let inkValue ← .send (oracle, .get vault.ilkId series.baseId (Uint.truncate 256 balances.ink))
    let inkValue ← .ofCall (firstWord 2 inkValue) -- ink * spot
    let accrued_debt ← .look fun w => (F.views w).debtToBase vault.seriesId balances.art
    let inkValue ← .ofCall (Uint.mul inkValue (Uint.truncate 256 (10 ^ 18)))
    let ratio ← .ofCall (Uint.div inkValue (Uint.truncate 256 accrued_debt))
    return [ratio]

def receiveFlashLoan (F : Setting Bytes ω) (sender : Address) (tokens : List Address)
    (amounts feeAmounts : List (Uint 256)) (userData : Bytes) : M Bytes ω Answer := do
  let s ← .read
  .require (s.liquidating ∧ sender = F.flashLoaner) "baka"
  .require (tokens.length = 1) "1 token expected"
  -- decode and verify
  let decoded ← .ofCall (F.abi.decode userData)
  let baseLoan ← .ofCall (index amounts 0)
  -- liquidate the vault
  safeApprove decoded.base decoded.baseJoin baseLoan
  let collateralReceived ← .send (F.witch, .payAll decoded.vaultId 0)
  let collateralReceived ← .ofCall (firstWord 1 collateralReceived)
  -- sell the collateral
  let fee ← .ofCall (index feeAmounts 0)
  let debtToReturn ← .ofCall (Uint.add baseLoan fee)
  safeApprove decoded.collateral F.swapRouter02 collateralReceived
  let _ ← .send (F.swapRouter02, F.message decoded.swapCalldata)
  -- router can't access collateral anymore
  safeApprove decoded.collateral F.swapRouter02 0
  -- take all remaining collateral
  let balance ← .look (F.balanceOf · decoded.collateral F.this)
  safeTransfer decoded.collateral decoded.recipient balance
  -- repay flash loan
  safeTransfer decoded.base sender debtToReturn
  return []

def liquidate (F : Setting Bytes ω) (sender : Address) (vaultId : Bytes12)
    (swapCalldata : List UInt8) : M Bytes ω Answer := do
  let s ← .read
  .require (¬s.liquidating) "go away baka"
  .update fun s => { s with liquidating := true }
  let (_, start) ← .look fun w => (F.views w).auctions vaultId
  .require (0 < start) "Vault not under auction"
  let (args, baseLoan) ← .look fun w =>
    prepare { F.views w with sender } vaultId swapCalldata
  let _ ← .send (F.flashLoaner,
    .flashLoan ⟨F.this, [args.base], [Uint.truncate 256 baseLoan], F.abi.encode args⟩)
  .update fun s => { s with liquidating := false }
  return []

def contract (F : Setting Bytes ω) :
    Contract Address (Message Bytes) Storage ω Answer where
  this := F.this
  body msg sender :=
    match msg with
    | .liquidate vaultId swapCalldata => liquidate F sender vaultId swapCalldata
    | .receiveFlashLoan tokens amounts feeAmounts userData =>
      receiveFlashLoan F sender tokens amounts feeAmounts userData
    | .collateralToDebtRatio vaultId => collateralToDebtRatio F vaultId
    | _ => .revert ""

end FlashLiquidator.Entries
