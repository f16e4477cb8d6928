import YieldModel.Objects.Cauldron

-- The flash liquidators. A state has what the contract itself holds, and the transfers which it has
-- made, the latest one at the end.

structure FlashLiquidator where
  swapRouter02 : Address
  flashLoaner  : Address
  liquidating  : Bool

namespace FlashLiquidator

def WETH   : Address := 0xC02aaA39b223FE8D0A0e5C4F27eAD9083C756Cc2
def STETH  : Address := 0xae7ab96520DE3A18E5e111B5EaAb095312D7fE84
def WSTETH : Address := 0x7f39C581F595B53c5cb19bD0b3f8dA6c935E2Ca0

structure FlashCallbackData where
  vaultId      : Bytes12
  base         : Address
  collateral   : Address
  baseJoin     : Address
  recipient    : Address
  swapCalldata : List UInt8

structure Transfer where
  token : Address
  to_   : Address
  value : ℕ
deriving DecidableEq

structure State where
  contract  : FlashLiquidator
  balanceOf : Address → ℕ
  eth       : ℕ
  transfers : List Transfer

-- What `payAll` of the Witch takes from the caller, and the collateral which it sends and returns.
structure Payment where
  base       : ℕ
  collateral : ℕ

-- What a call to the swap router takes of the approved token, and what it sends of all tokens.
structure Swap where
  taken    : ℕ
  received : Address → ℕ
  eth      : ℕ

-- The sender of a call, and what the other contracts answer.
structure Context where
  sender     : Address
  auctions   : Bytes12 → Call (Address × Uint 32)
  vaults     : Bytes12 → Call DataTypes.Vault
  balances   : Bytes12 → Call DataTypes.Balances
  series     : Bytes6 → Call DataTypes.Series
  assets     : Bytes6 → Call Address
  debtToBase : Bytes6 → Uint 128 → Call (Uint 128)
  joins      : Bytes6 → Call Address
  fee        : Address → Uint 256 → Uint 256
  approve    : Address → Address → ℕ → Call Unit
  payAll     : Bytes12 → Call Payment
  swap       : List UInt8 → Call Swap
  unwrap     : ℕ → Call ℕ
  exchange   : ℕ → Call ℕ

namespace State

def receive (s : State) (token : Address) (n : ℕ) : State :=
  { s with balanceOf := Function.update s.balanceOf token (s.balanceOf token + n) }

def send (s : State) (token : Address) (n : ℕ) : Call State := do
  Call.require (n ≤ s.balanceOf token) "ERC20: Insufficient balance"
  return { s with balanceOf := Function.update s.balanceOf token (s.balanceOf token - n) }

def safeTransfer (s : State) (token to_ : Address) (value : ℕ) : Call State := do
  let s ← s.send token value
  return { s with transfers := s.transfers ++ [{ token, to_, value }] }

end State

def index {α : Type} (l : List α) (i : ℕ) : Call α :=
  match l[i]? with
  | some a => .ok a
  | none   => .error "Panic(0x32)"

-- The Witch pays out the collateral of the vault, and is paid by the caller at most what the caller
-- has approved.
def payAll (s : State) (ctx : Context) (data : FlashCallbackData) (approved : ℕ) :
    Call (State × ℕ) := do
  let paid ← ctx.payAll data.vaultId
  Call.require (paid.base ≤ approved) "ERC20: Insufficient approval"
  let s ← s.send data.base paid.base
  return (s.receive data.collateral paid.collateral, paid.collateral)

-- The router takes at most what has been approved of the token. Ether is accepted only by a
-- contract which has a function for it.
def swapRouterCall (s : State) (ctx : Context) (payable_ : Bool) (token : Address) (approved : ℕ)
    (swapCalldata : List UInt8) : Call State := do
  let swap ← ctx.swap swapCalldata
  Call.require (swap.taken ≤ approved) "swap failed"
  Call.require (payable_ ∨ swap.eth = 0) "swap failed"
  let s ← s.send token swap.taken
  return { s with
    balanceOf := fun t => s.balanceOf t + swap.received t
    eth       := s.eth + swap.eth
  }

def receiveFlashLoan (s : State) (ctx : Context) (sender : Address) (tokens : List Address)
    (amounts feeAmounts : List (Uint 256)) (decoded : FlashCallbackData) : Call State := do
  Call.require (s.contract.liquidating ∧ sender = s.contract.flashLoaner) "baka"
  Call.require (tokens.length = 1) "1 token expected"
  let baseLoan ← index amounts 0
  ctx.approve decoded.base decoded.baseJoin baseLoan
  let (s, collateralReceived) ← payAll s ctx decoded baseLoan
  let debtToReturn ← Uint.add baseLoan (← index feeAmounts 0)
  ctx.approve decoded.collateral s.contract.swapRouter02 collateralReceived
  let s ← swapRouterCall s ctx false decoded.collateral collateralReceived decoded.swapCalldata
  ctx.approve decoded.collateral s.contract.swapRouter02 0
  let s ← s.safeTransfer decoded.collateral decoded.recipient (s.balanceOf decoded.collateral)
  s.safeTransfer decoded.base sender debtToReturn

-- The callback of a flash loan, which the two contracts implement.
abbrev FlashLoanRecipient :=
  State → Context → Address → List Address → List (Uint 256) → List (Uint 256) → FlashCallbackData →
  Call State

-- The flash loaner sends the loans, and calls the recipient back with the same data.
def flashLoan (recipient : FlashLoanRecipient) (s : State) (ctx : Context) (tokens : List Address)
    (amounts : List (Uint 256)) (userData : FlashCallbackData) : Call State :=
  let s' := (tokens.zip amounts).foldl (fun s (token, amount) => s.receive token amount) s
  let feeAmounts := List.zipWith ctx.fee tokens amounts
  recipient s' ctx s.contract.flashLoaner tokens amounts feeAmounts userData

-- The data for the callback, and the base to be borrowed.
def prepare (ctx : Context) (vaultId : Bytes12) (swapCalldata : List UInt8) :
    Call (FlashCallbackData × Uint 128) := do
  let vault ← ctx.vaults vaultId
  let balances ← ctx.balances vaultId
  let series ← ctx.series vault.seriesId
  let baseToken ← ctx.assets series.baseId
  let baseLoan ← ctx.debtToBase vault.seriesId balances.art
  let collateral ← ctx.assets vault.ilkId
  let baseJoin ← ctx.joins series.baseId
  return ({
    vaultId
    base       := baseToken
    collateral := collateral
    baseJoin   := baseJoin
    swapCalldata
    recipient  := ctx.sender
  }, baseLoan)

def liquidateWith (recipient : FlashLoanRecipient) (s : State) (ctx : Context) (vaultId : Bytes12)
    (swapCalldata : List UInt8) : Call State := do
  Call.require (¬s.contract.liquidating) "go away baka"
  let s := { s with contract.liquidating := true }
  let (_, start) ← ctx.auctions vaultId
  Call.require (0 < start) "Vault not under auction"
  let (args, baseLoan) ← prepare ctx vaultId swapCalldata
  let s ← flashLoan recipient s ctx [args.base] [Uint.truncate 256 baseLoan] args
  return { s with contract.liquidating := false }

def liquidate : State → Context → Bytes12 → List UInt8 → Call State :=
  liquidateWith receiveFlashLoan

end FlashLiquidator

namespace WstethFlashLiquidator

open FlashLiquidator

def CURVE_SWAP : Address := 0xDC24316b9AE028F1497c275EB9192a3Ea0f67022

def unwrap (s : State) (ctx : Context) (wstEthAmount : ℕ) : Call (State × ℕ) := do
  Call.require (0 < wstEthAmount) "wstETH: zero amount unwrap not allowed"
  let s ← s.send WSTETH wstEthAmount
  let unwrappedStEth ← ctx.unwrap wstEthAmount
  return (s.receive STETH unwrappedStEth, unwrappedStEth)

def exchange (s : State) (ctx : Context) (dx : ℕ) : Call (State × ℕ) := do
  let s ← s.send STETH dx
  let ethReceived ← ctx.exchange dx
  return ({ s with eth := s.eth + ethReceived }, ethReceived)

def deposit (s : State) (value : ℕ) : Call State := do
  Call.require (value ≤ s.eth) ""
  return { s with eth := s.eth - value }.receive WETH value

-- The first three steps of the sale, down to WETH.
def sellCollateral (s : State) (ctx : Context) (collateralReceived : ℕ) : Call (State × ℕ) := do
  -- Step 1 - unwrap WSTETH => STETH
  let (s, unwrappedStEth) ← unwrap s ctx collateralReceived
  -- Step 2 - swap STETH for Eth on Curve
  ctx.approve STETH CURVE_SWAP unwrappedStEth
  let (s, ethReceived) ← exchange s ctx unwrappedStEth
  -- Step 3 -  wrap the Eth => Weth
  let s ← deposit s ethReceived
  return (s, ethReceived)

-- Step 4 - if necessary, swap Weth for base on UniSwap
def recoverDebt (s : State) (ctx : Context) (decoded : FlashCallbackData) (ethReceived : ℕ) :
    Call (State × ℕ) :=
  if decoded.base = WETH then
    return (s, ethReceived)
  else do
    ctx.approve WETH s.contract.swapRouter02 ethReceived
    let s ← swapRouterCall s ctx true WETH ethReceived decoded.swapCalldata
    return (s, 0)

-- if profitable pay profits to recipient
def payProfit (s : State) (decoded : FlashCallbackData) (debtRecovered debtToReturn : ℕ) :
    Call State :=
  if debtToReturn < debtRecovered then
    s.safeTransfer decoded.base decoded.recipient (debtRecovered - debtToReturn)
  else
    return s

def receiveFlashLoan (s : State) (ctx : Context) (sender : Address) (tokens : List Address)
    (amounts feeAmounts : List (Uint 256)) (decoded : FlashCallbackData) : Call State := do
  Call.require (s.contract.liquidating ∧ sender = s.contract.flashLoaner) "baka"
  Call.require (tokens.length = 1) "1 token expected"
  let baseLoan ← index amounts 0
  let debtToReturn ← Uint.add baseLoan (← index feeAmounts 0)
  ctx.approve decoded.base decoded.baseJoin baseLoan
  let (s, collateralReceived) ← payAll s ctx decoded baseLoan
  let (s, ethReceived) ← sellCollateral s ctx collateralReceived
  let (s, debtRecovered) ← recoverDebt s ctx decoded ethReceived
  let s ← payProfit s decoded debtRecovered debtToReturn
  s.safeTransfer decoded.base sender debtToReturn

def liquidate : State → Context → Bytes12 → List UInt8 → Call State :=
  liquidateWith receiveFlashLoan

end WstethFlashLiquidator
