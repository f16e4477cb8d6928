import YieldModel.Lib.File
import YieldModel.Liquidator.Liquidations

namespace YieldLiquidator

namespace Keeper

variable (cfg : Config) (node : Node)

def new (baseToDebtThreshold : HashMap BaseIdType U128) (nonce : ℕ) (state : Option State) :
    Keeper where
  client     := { nonce, journal := [] }
  lastBlock  := (state.map State.lastBlock).getD 0
  cache      := { seriesToBase := ∅, assetIdToAddress := ∅, baseToDebtThreshold }
  borrowers  := { vaults := (state.map State.vaults).getD ∅ }
  liquidator := {
    auctions            := (state.map State.auctions).getD ∅
    pendingLiquidations := ∅
    pendingAuctions     := ∅
  }

-- The state which is dumped by `log`.
def state (k : Keeper) : State where
  auctions  := k.liquidator.auctions
  vaults    := k.borrowers.vaults
  lastBlock := k.lastBlock

def onBlock (blockNumber : U64) : Bot Unit := do
  let gasPrice ← Prog.ofResult node.gasPrice
  -- 1. Check if our transactions have been mined.
  Liquidator.removeOrBump cfg node
  -- 2. Update our dataset with the new block's data.
  let k ← get
  Borrowers.updateVaults cfg node k.lastBlock blockNumber
  -- 3. Trigger the auction for any undercollateralized borrowers.
  let k ← get
  Liquidator.startAuctions node (node.order k.borrowers.vaults.iter) gasPrice
  -- 4. Try buying the ones which are worth buying.
  let k ← get
  Liquidator.buyOpportunities cfg node k.lastBlock blockNumber gasPrice

end Keeper

-- What an iteration of the loop of `run` is answered apart from the processing of a block. The
-- bytes which a dump writes come with whether all of it could be written.
structure Iteration where
  filterChanges : Result Unit
  newFilter     : Result Unit
  blockNumber   : Result U64
  block         : Result (Option U256)
  opens         : Bool
  toWriter      : State → Bytes × Bool
  node          : Node

-- The variables of `run` and the file on disk. It runs until an error is returned, or a panic.
structure Run where
  keeper               : Keeper
  errCount             : ℕ
  file                 : Bool
  maybeLastBlockNumber : Option U64
  failuresInRow        : ℕ
  disk                 : Bytes
  running              : Bool

namespace Run

variable (cfg : Config) (it : Iteration)

def start (k : Keeper) (disk : Bytes) (startBlock : Option U64) : Run where
  keeper               := { k with lastBlock := startBlock.getD k.lastBlock }
  errCount             := 0
  file                 := false
  maybeLastBlockNumber := none
  failuresInRow        := 0
  disk                 := disk
  running              := true

abbrev Loop := Prog ContractError Run

-- The file has been opened for reading and writing, but it has not been truncated.
def log : Loop Unit := do
  let r ← get
  let (bytes, complete) := it.toWriter r.keeper.state
  modify fun r => { r with disk := File.write r.disk bytes }
  Prog.assert complete "called `Result::unwrap()` on an `Err` value"

-- The block is fetched for the log only.
def announceBlock : Loop Unit := do
  match ← Prog.ofResult it.block with
  | some timestamp => Prog.assert (timestamp.val < 2 ^ 64) "Integer overflow when casting to u64"
  | none           => return

-- On every tenth block a new file handle is opened, to which the state will be dumped.
def openFile (blockNumber : U64) : Loop Unit :=
  if blockNumber.val % 10 = 0 then do
    Prog.assert it.opens "called `Result::unwrap()` on an `Err` value"
    modify fun r => { r with file := true }
  else
    return

def processBlock (blockNumber : U64) : Loop Unit := do
  modify fun r => { r with maybeLastBlockNumber := some blockNumber }
  announceBlock it
  openFile it blockNumber
  match ← Prog.attempt (Prog.zoom keeper (fun r k => { r with keeper := k })
      (Keeper.onBlock cfg it.node blockNumber)) with
  | .ok _ =>
    modify fun r => { r with failuresInRow := 0, keeper.lastBlock := blockNumber }
    let r ← get
    if r.file then
      modify fun r => { r with file := false }
      log it
  | .error x =>
    modify fun r => { r with maybeLastBlockNumber := none, failuresInRow := r.failuresInRow + 1 }
    let r ← get
    if 10 ≤ r.failuresInRow then
      Prog.error x

def iterate : Loop Unit :=
  match it.filterChanges with
  | .ok _ => do
    modify fun r => { r with errCount := 0 }
    let blockNumber ← Prog.ofResult it.blockNumber
    let r ← get
    if r.maybeLastBlockNumber ≠ some blockNumber then
      processBlock cfg it blockNumber
  | .error _ => do
    modify fun r => { r with errCount := r.errCount + 1 }
    let r ← get
    if r.errCount = 10 then
      Prog.error (.providerError "can't query filter")
    else
      Prog.ofResult it.newFilter

-- One iteration of a run which has not ended.
def next (r : Run) : Run :=
  match (iterate cfg it).exec r with
  | (.ok _, r')    => r'
  | (.error _, r') => { r' with running := false }

end Run

end YieldLiquidator
