import YieldModel.Lib.HashMap
import YieldModel.Lib.Prog
import YieldModel.Objects.Cauldron

-- The data of the liquidation bot. The bot is built with `--release`, so the arithmetic of its
-- machine integers wraps around, as it does for `Uint`.

namespace YieldLiquidator

abbrev U16  := Uint 16
abbrev U32  := Uint 32
abbrev U64  := Uint 64
abbrev U128 := Uint 128
abbrev U256 := Uint 256

abbrev VaultIdType  := Bytes12
abbrev SeriesIdType := Bytes6
abbrev AssetIdType  := Bytes6
abbrev BaseIdType   := AssetIdType
abbrev IlkIdType    := AssetIdType

abbrev TxHash  := Bytes32
abbrev Bytes   := List UInt8
-- A time in seconds.
abbrev Instant := ℕ

inductive ContractError
  | constructorError
  | middlewareError (message : String)
  | providerError (message : String)
  | decodingError (message : String)
deriving DecidableEq

abbrev Result := Except ContractError

structure Vault where
  vaultId          : VaultIdType
  isInitialized    : Bool
  isCollateralized : Bool
  underAuction     : Bool
  level            : ℤ
  debt             : U128
  ilkId            : IlkIdType
  seriesId         : SeriesIdType
deriving DecidableEq

abbrev VaultMap   := HashMap VaultIdType Vault
abbrev AuctionMap := HashMap VaultIdType Bool

structure Auction where
  started                    : U32
  underAuction               : Bool
  debt                       : U128
  baseId                     : BaseIdType
  ilkId                      : IlkIdType
  ratioPct                   : U16
  collateralOfferIsGoodEnough : Bool

-- The state which is stored between two starts of the bot.
structure State where
  auctions  : AuctionMap
  vaults    : VaultMap
  lastBlock : U64
deriving DecidableEq

inductive TxType
  | auction
  | liquidation
deriving DecidableEq

inductive Calldata
  | auction (vaultId : VaultIdType)
  | liquidate (vaultId : VaultIdType) (swapCalldata : Bytes)
deriving DecidableEq

structure Eip1559TransactionRequest where
  sender               : Option Address
  data                 : Calldata
  gas                  : Option U256
  nonce                : Option ℕ
  maxFeePerGas         : Option U256
  maxPriorityFeePerGas : Option U256
deriving DecidableEq

inductive TypedTransaction
  | legacy
  | eip2930
  | eip1559 (tx : Eip1559TransactionRequest)
deriving DecidableEq

-- A transaction, its hash, and when it has been submitted.
abbrev PendingTransaction := TypedTransaction × TxHash × Instant

structure ImmutableCache where
  seriesToBase        : HashMap SeriesIdType BaseIdType
  assetIdToAddress    : HashMap AssetIdType Address
  baseToDebtThreshold : HashMap BaseIdType U128

structure Borrowers where
  vaults : VaultMap

structure Liquidator where
  auctions            : AuctionMap
  pendingLiquidations : HashMap VaultIdType PendingTransaction
  pendingAuctions     : HashMap VaultIdType PendingTransaction

-- What the bot has done so far, as far as others can see it. A broadcast has the nonce with which
-- the transaction is sent, a query has its range of blocks and the ids in its result.
inductive Event
  | broadcast (txType : TxType) (vaultId : VaultIdType) (nonce : ℕ) (hash : TxHash)
  | confirmed (txType : TxType) (vaultId : VaultIdType)
  | vaultPoured (fromBlock toBlock : U64) (ids : List VaultIdType)
  | auctioned (fromBlock toBlock : U64) (ids : List VaultIdType)
  | swapExactOut (vaultId : VaultIdType) (tokenIn tokenOut : Address) (amount : U256)
deriving DecidableEq

-- The client keeps the next nonce. Its journal has the latest event first.
structure Client where
  nonce   : ℕ
  journal : List Event

structure Keeper where
  client     : Client
  lastBlock  : U64
  cache      : ImmutableCache
  borrowers  : Borrowers
  liquidator : Liquidator

abbrev Bot := Prog ContractError Keeper

-- The options which are set when the bot is started.
structure Config where
  multicallBatchSize    : ℕ
  minRatio              : U16
  gasBoost              : U16
  bumpGasDelay          : U64
  targetCollateralOffer : U16
  blocksPerBatch        : Option U64
  vaultsWhitelist       : Option (Finset VaultIdType)
  getGasPrice           : U256 → U64 → U256

-- A call which is made through a multicall, and the decoders of the results.
inductive MulticallCall
  | level (vaultId : VaultIdType)
  | balances (vaultId : VaultIdType)
  | vaults (vaultId : VaultIdType)
  | auctions (vaultId : VaultIdType)
deriving DecidableEq

structure Abi where
  level    : Bytes → Option ℤ
  balances : Bytes → Option (U128 × U128)
  vaults   : Bytes → Option (Address × SeriesIdType × IlkIdType)
  auctions : Bytes → Option (Address × U32)

-- The results of the calls which are made for one auction.
structure AuctionReading where
  balances              : U128 × U128
  auctions              : Address × U32
  ilks                  : U32 × U64
  collateralToDebtRatio : U256

-- Everything that the chain, the swap router and the clock answer while one block is processed.
-- Hash maps are iterated, and concurrent queries are completed, in any order.
structure Node where
  order                 : {α : Type} → List α → List α
  order_perm            : ∀ {α : Type} (l : List α), (order l).Perm l
  abi                   : Abi
  gasPrice              : Result U256
  bumpedAt              : Instant
  receipt               : TxHash → Result (Option Bool)
  replace               : TypedTransaction → Result TxHash
  vaultPoured           : U64 → U64 → Result (List VaultIdType)
  tryAggregate          : ℕ → List MulticallCall → Result (List (Bool × Bytes))
  series                : SeriesIdType → Result DataTypes.Series
  assets                : AssetIdType → Result Address
  startedAt             : Instant
  send                  : TypedTransaction → Result TxHash
  auctioned             : U64 → U64 → Result (List VaultIdType)
  blockNumber           : Result U64
  block                 : ℕ → U64 → Result (Option U256)
  boughtAt              : VaultIdType → Instant
  vaults                : VaultIdType → Result (Address × SeriesIdType × IlkIdType)
  multicall             : VaultIdType → IlkIdType → Result AuctionReading
  systemTime            : Result Unit
  buildSwapExactOut     : Address → Address → U256 → Except String Bytes
  defaultSender         : Option Address
  estimateGas           : VaultIdType → Bytes → Result U256

-- The default options.
def Config.opts : Config where
  multicallBatchSize    := 500
  minRatio              := 110
  gasBoost              := 10
  bumpGasDelay          := 90
  targetCollateralOffer := 90
  blocksPerBatch        := none
  vaultsWhitelist       := none
  getGasPrice p _       := p

-- A chain on which one vault has been poured, which is undercollateralized. Transactions are
-- accepted, but not mined.
def Node.single (v : VaultIdType) : Node where
  order l               := l
  order_perm _          := .rfl
  abi                   := {
    level _    := some (-1)
    balances _ := some (100, 200)
    vaults _   := some (7, 1, 2)
    auctions _ := some (0, 0)
  }
  gasPrice              := .ok 1
  bumpedAt              := 0
  receipt _             := .ok none
  replace _             := .ok 2
  vaultPoured _ _       := .ok [v]
  tryAggregate _ calls  := .ok (calls.map fun _ => (true, []))
  series _              := .ok ⟨4, 3, 1000⟩
  assets _              := .ok 5
  startedAt             := 0
  send _                := .ok 1
  auctioned _ _         := .ok []
  blockNumber           := .ok 1
  block _ _             := .ok (some 1000)
  boughtAt _            := 0
  vaults _              := .ok (7, 1, 2)
  multicall _ _         := .ok ⟨(100, 200), (7, 1), (3600, 500000000000000000), 1000000000000000000⟩
  systemTime            := .ok ()
  buildSwapExactOut _ _ _ := .ok []
  defaultSender         := some 9
  estimateGas _ _       := .ok 1000

namespace TypedTransaction

def nonce : TypedTransaction → Option ℕ
  | eip1559 tx => tx.nonce
  | _          => none

def setNonce (n : ℕ) : TypedTransaction → TypedTransaction
  | eip1559 tx => eip1559 { tx with nonce := n }
  | tx         => tx

end TypedTransaction

namespace Liquidator

def pending (l : Liquidator) : TxType → HashMap VaultIdType PendingTransaction
  | .liquidation => l.pendingLiquidations
  | .auction     => l.pendingAuctions

def setPending (l : Liquidator) (p : HashMap VaultIdType PendingTransaction) :
    TxType → Liquidator
  | .liquidation => { l with pendingLiquidations := p }
  | .auction     => { l with pendingAuctions := p }

end Liquidator

-- The keys of both arguments, sorted and without duplicates.
def merge {α : Type} (a : List VaultIdType) (b : HashMap VaultIdType α) : List VaultIdType :=
  ((a ++ b.keysList).insertionSort (· ≤ ·)).dedup

@[simp]
theorem mem_merge {α : Type} {a : List VaultIdType} {b : HashMap VaultIdType α} {v : VaultIdType} :
    v ∈ merge a b ↔ v ∈ a ∨ v ∈ b := by
  simp [merge]

-- The blocks of `(from..to).step_by(step)`.
def stepBy (fromBlock toBlock step : U64) : List U64 :=
  (List.range' fromBlock ((toBlock - fromBlock + step - 1 : ℕ) / step) step).map (Uint.truncate 64)

namespace Keeper

def record (k : Keeper) (e : Event) : Keeper :=
  { k with client.journal := e :: k.client.journal }

def mapPending (k : Keeper) (t : TxType)
    (f : HashMap VaultIdType PendingTransaction → HashMap VaultIdType PendingTransaction) :
    Keeper :=
  { k with liquidator := k.liquidator.setPending (f (k.liquidator.pending t)) t }

-- A transaction without a nonce takes the next one.
def broadcast (k : Keeper) (t : TxType) (vaultId : VaultIdType) (nonce : Option ℕ) (hash : TxHash) :
    Keeper where
  client     := {
    nonce   := if nonce.isNone then k.client.nonce + 1 else k.client.nonce
    journal := .broadcast t vaultId (nonce.getD k.client.nonce) hash :: k.client.journal
  }
  lastBlock  := k.lastBlock
  cache      := k.cache
  borrowers  := k.borrowers
  liquidator := k.liquidator

variable {k : Keeper} {t t' : TxType} {v : VaultIdType} {nonce : Option ℕ} {hash : TxHash}
variable {e : Event}
variable {f : HashMap VaultIdType PendingTransaction → HashMap VaultIdType PendingTransaction}

@[simp]
theorem record_journal : (k.record e).client.journal = e :: k.client.journal :=
  rfl

@[simp]
theorem record_liquidator : (k.record e).liquidator = k.liquidator :=
  rfl

@[simp]
theorem broadcast_journal : (k.broadcast t v nonce hash).client.journal =
    .broadcast t v (nonce.getD k.client.nonce) hash :: k.client.journal :=
  rfl

@[simp]
theorem broadcast_liquidator : (k.broadcast t v nonce hash).liquidator = k.liquidator :=
  rfl

@[simp]
theorem mapPending_client : (k.mapPending t f).client = k.client :=
  rfl

@[simp]
theorem mapPending_pending :
    (k.mapPending t f).liquidator.pending t = f (k.liquidator.pending t) := by
  cases t <;> rfl

theorem mapPending_pending_ne (h : t' ≠ t) :
    (k.mapPending t f).liquidator.pending t' = k.liquidator.pending t' := by
  cases t <;> cases t' <;> trivial

end Keeper

namespace Bot

def record (e : Event) : Bot Unit :=
  modify (·.record e)

def modifyCache (f : ImmutableCache → ImmutableCache) : Bot Unit :=
  modify fun k => { k with cache := f k.cache }

def modifyVaults (f : VaultMap → VaultMap) : Bot Unit :=
  modify fun k => { k with borrowers.vaults := f k.borrowers.vaults }

def modifyAuctions (f : AuctionMap → AuctionMap) : Bot Unit :=
  modify fun k => { k with liquidator.auctions := f k.liquidator.auctions }

def modifyPending (t : TxType)
    (f : HashMap VaultIdType PendingTransaction → HashMap VaultIdType PendingTransaction) :
    Bot Unit :=
  modify (·.mapPending t f)

-- The conversion `as_u64`.
def asU64 (n : U256) : Bot U64 :=
  if h : (n : ℕ) < 2 ^ 64 then return ⟨n, h⟩ else Prog.panic "Integer overflow when casting to u64"

def toU256 (n : ℕ) : Bot U256 :=
  if h : n < 2 ^ 256 then return ⟨n, h⟩ else Prog.panic "arithmetic operation overflow"

-- The client sets the nonce of a transaction in a copy of its own, the transaction of the caller is
-- unchanged.
def sendTransaction (t : TxType) (vaultId : VaultIdType) (send : TypedTransaction → Result TxHash)
    (tx : TypedTransaction) : Bot TxHash := do
  let k ← get
  let hash ← Prog.ofResult (send (tx.setNonce (tx.nonce.getD k.client.nonce)))
  modify (·.broadcast t vaultId tx.nonce hash)
  return hash

-- Queries the logs of a range of blocks, whose ends are both included.
def queryLogs (answer : U64 → U64 → Result (List VaultIdType))
    (event : U64 → U64 → List VaultIdType → Event) (fromBlock toBlock : U64) :
    Bot (List VaultIdType) := do
  let ids ← Prog.ofResult (answer fromBlock toBlock)
  record (event fromBlock toBlock ids)
  return ids

end Bot

end YieldLiquidator
