import YieldModel.Liquidator.Borrowers

namespace YieldLiquidator.Liquidator

variable (cfg : Config) (node : Node)

-- Replaces the pending transaction of `addr` by one which offers `newGasPrice`. If this fails, the
-- transaction is dropped.
def bump (t : TxType) (addr : VaultIdType) (newGasPrice : U256) : Bot Unit := do
  let k ← get
  let (replacementTx, _, _) ← Prog.ofOption "tx will always be found"
    ((k.liquidator.pending t).lookup addr)
  match replacementTx with
  | .eip1559 x =>
    let replacementTx := TypedTransaction.eip1559 { x with
      maxFeePerGas         := some newGasPrice
      maxPriorityFeePerGas := some 2000000000 }
    match ← Prog.attempt (Bot.sendTransaction t addr node.replace replacementTx) with
    | .ok tx   => Bot.modifyPending t fun p => p.insert addr (replacementTx, tx, node.bumpedAt)
    | .error _ => Bot.modifyPending t fun p => p.erase addr
  | _ => Prog.panic "Non-Eip1559 transactions are not supported yet"

-- One round of the loop of `removeOrBumpInner`, for an entry of the map when the loop begins.
def removeOrBumpEntry (t : TxType) (entry : VaultIdType × PendingTransaction) : Bot Unit :=
  match entry with
  | (addr, .eip1559 pendingTx, txHash, instant) => do
    match ← Prog.ofResult (node.receipt txHash) with
    | some _ =>
      modify fun k => (k.mapPending t fun p => p.erase addr).record (.confirmed t addr)
    | none =>
      let timeSince := Uint.truncate 64 (node.bumpedAt - instant)
      if cfg.bumpGasDelay < timeSince then
        let maxFeePerGas ← Prog.ofOption "max_fee_per_gas price must be set" pendingTx.maxFeePerGas
        bump node t addr (cfg.getGasPrice maxFeePerGas timeSince)
  | _ => Prog.panic "Non-Eip1559 transactions are not supported yet"

def removeOrBumpInner (t : TxType) : Bot Unit := do
  let k ← get
  (node.order (k.liquidator.pending t).iter).forM (removeOrBumpEntry cfg node t)

def removeOrBump : Bot Unit := do
  removeOrBumpInner cfg node .liquidation
  removeOrBumpInner cfg node .auction

def getNewAuctionedVaults : U64 → U64 → Bot (List VaultIdType) :=
  Bot.queryLogs node.auctioned .auctioned

-- Sends a transaction and, if this succeeds, tracks it.
def sendAndTrack (t : TxType) (vaultId : VaultIdType) (tx : TypedTransaction) (now : Instant) :
    Bot Unit := do
  match ← Prog.attempt (Bot.sendTransaction t vaultId node.send tx) with
  | .ok hash => Bot.modifyPending t fun p => p.orInsert vaultId (tx, hash, now)
  | .error _ => return

def startAuction (gasPrice : U256) (vaultId : VaultIdType) : Bot Unit :=
  let tx := TypedTransaction.eip1559 {
    sender               := none
    data                 := .auction vaultId
    gas                  := none
    nonce                := none
    maxFeePerGas         := some gasPrice
    maxPriorityFeePerGas := some gasPrice
  }
  sendAndTrack node .liquidation vaultId tx node.startedAt

def startAuctions (vaults : List (VaultIdType × Vault)) (gasPrice : U256) : Bot Unit :=
  vaults.forM fun (vaultId, vault) => do
    let k ← get
    if vault.isInitialized ∧ vaultId ∉ k.liquidator.pendingLiquidations ∧
        ¬vault.isCollateralized ∧ ¬vault.underAuction then
      startAuction node gasPrice vaultId

-- The share of the collateral on offer, in percent.
def currentOffer (now auctionStart duration initialOffer : U64) :
    Except (Failure ContractError) U16 :=
  if now < auctionStart then
    .error (.error .constructorError)
  else if (1000000000000000000 : U64) < initialOffer then
    .error (.error .constructorError)
  else
    let initialOfferPct := initialOffer / (10000000000000000 : U64)
    let timeSinceAuctionStart := now - auctionStart
    if duration ≤ timeSinceAuctionStart then
      .ok 100
    else
      let offer := timeSinceAuctionStart * (100 - initialOfferPct) / duration + initialOfferPct
      if h : (offer : ℕ) < 2 ^ 16 then .ok ⟨offer, h⟩ else .error (.panic "TryFromIntError(())")

-- If there is no current offer, the bot goes on with 0.
def offerAt (blockTimestamp : U64) (auctionStart duration : U32) (initialOffer : U64) : Bot U16 :=
  match node.systemTime with
  | .ok _ => do
    let offer ← Prog.attempt (Prog.ofExcept (currentOffer blockTimestamp
      (Uint.truncate 64 auctionStart) (Uint.truncate 64 duration) initialOffer))
    return offer.toOption.getD 0
  | .error _ => return 0

-- If the percentage does not fit, the bot goes on with 0.
def ratioPct (ratio : U256) : U16 :=
  let ratioPctU256 := (ratio : ℕ) / 10 ^ 16
  if h : ratioPctU256 < 2 ^ 16 then ⟨ratioPctU256, h⟩ else 0

def getAuction (vaultId : VaultIdType) (blockTimestamp : U64) : Bot (Option Auction) := do
  let (_, seriesId, ilkId) ← Prog.ofResult (node.vaults vaultId)
  let reading ← Prog.ofResult (node.multicall vaultId ilkId)
  let (art, _) := reading.balances
  let (auctionOwner, auctionStart) := reading.auctions
  let (duration, initialOffer) := reading.ilks
  if ← ImmutableCache.isVaultIgnored node seriesId ilkId art then
    return none
  let currentOffer ← offerAt node blockTimestamp auctionStart duration initialOffer
  let baseId ← ImmutableCache.getOrFetchBaseId node seriesId
  return some {
    underAuction               := auctionOwner ≠ 0
    started                    := auctionStart
    debt                       := art
    ratioPct                   := ratioPct reading.collateralToDebtRatio
    baseId                     := baseId
    ilkId                      := ilkId
    collateralOfferIsGoodEnough := cfg.targetCollateralOffer ≤ currentOffer
  }

-- Submits a bid for an auction which is worth buying.
def submit (vaultId : VaultIdType) (auction : Auction) (gasPrice : U256) : Bot Bool := do
  Bot.modifyAuctions fun auctions => auctions.insert vaultId true
  let collateral ← ImmutableCache.getOrFetchAssetAddress node auction.ilkId
  let debt ← ImmutableCache.getOrFetchAssetAddress node auction.baseId
  let amount := Uint.truncate 256 auction.debt
  Bot.record (.swapExactOut vaultId collateral debt amount)
  match node.buildSwapExactOut collateral debt amount with
  | .error _ => return true
  | .ok swapCalldata =>
    let sender ← Prog.ofOption "default sender" node.defaultSender
    let gasEstimation ← Prog.ofResult (node.estimateGas vaultId swapCalldata)
    let boosted ← Bot.toU256 (gasEstimation * (cfg.gasBoost + 100 : U16))
    let gas := Uint.truncate 256 (boosted / 100)
    let tx := TypedTransaction.eip1559 {
      sender               := some sender
      data                 := .liquidate vaultId swapCalldata
      gas                  := some gas
      nonce                := none
      maxFeePerGas         := some gasPrice
      maxPriorityFeePerGas := some gasPrice
    }
    sendAndTrack node .auction vaultId tx (node.boughtAt vaultId)
    return true

def buy (vaultId : VaultIdType) (blockTimestamp : U64) (gasPrice : U256) : Bot Bool := do
  let k ← get
  if vaultId ∈ k.liquidator.pendingAuctions then
    return true
  match ← Prog.attempt (getAuction cfg node vaultId blockTimestamp) with
  | .error _  => return true
  | .ok none  => return false
  | .ok (some auction) =>
    if ¬auction.underAuction then
      return false
    if auction.debt = 0 then
      return true
    if auction.ratioPct ≤ cfg.minRatio ∨ auction.collateralOfferIsGoodEnough then
      submit cfg node vaultId auction gasPrice
    else
      return true

-- One round of the loop of `buyOpportunities`.
def buyOpportunity (blockTimestamp gasPrice : U256) (vaultId : VaultIdType) : Bot Unit := do
  Bot.modifyAuctions fun auctions => auctions.insert vaultId true
  let blockTimestamp ← Bot.asU64 blockTimestamp
  match ← Prog.attempt (buy cfg node vaultId blockTimestamp gasPrice) with
  | .ok isStillValid =>
    if ¬isStillValid then
      Bot.modifyAuctions fun auctions => auctions.erase vaultId
  | .error _ => return

-- Asks for a block until there is one, at most `attempts` times.
def getBlock (blockNumber : U64) : (attempts : ℕ) → Result (Option U256)
  | 0            => .ok none
  | attempts + 1 => do
    match ← node.block attempts blockNumber with
    | some timestamp => return some timestamp
    | none           => getBlock blockNumber attempts

def buyOpportunities (fromBlock toBlock : U64) (gasPrice : U256) : Bot Unit := do
  let newLiquidations ← queryBatches cfg node (getNewAuctionedVaults node) fromBlock toBlock
  let k ← get
  let allAuctions := merge newLiquidations k.liquidator.auctions
  let blockNumber ← Prog.ofResult node.blockNumber
  let maybeBlock ← Prog.ofResult (getBlock node blockNumber 10)
  let blockTimestamp ← Prog.ofOption "called `Option::unwrap()` on a `None` value" maybeBlock
  allAuctions.forM (buyOpportunity cfg node blockTimestamp gasPrice)

end YieldLiquidator.Liquidator
