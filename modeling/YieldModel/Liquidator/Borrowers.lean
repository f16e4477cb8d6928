import YieldModel.Liquidator.Cache

namespace YieldLiquidator.Borrowers

variable (cfg : Config) (node : Node)

def getNewVaultIds : U64 → U64 → Bot (List VaultIdType) :=
  Bot.queryLogs node.vaultPoured .vaultPoured

def getVaultInfoChunkGenerateMulticallArgs (idsChunk : List VaultIdType) : List MulticallCall :=
  idsChunk.flatMap fun v => [.level v, .balances v, .vaults v, .auctions v]

-- The data of a vault from the results of its four calls. Results which cannot be decoded panic.
def getVaultInfoGenerateVault (singleVaultData : List (Bool × Bytes)) (vaultId : VaultIdType) :
    Bot Vault :=
  match singleVaultData with
  | [(levelOk, level), (balancesOk, balances), (vaultOk, vault), (auctionOk, auction)] => do
    if ¬(levelOk ∧ balancesOk ∧ vaultOk ∧ auctionOk) then
      Prog.error .constructorError
    let levelInt ← Prog.ofOption "decode level" (node.abi.level level)
    let balances ← Prog.ofOption "decode balances" (node.abi.balances balances)
    let vaultData ← Prog.ofOption "decode vaults" (node.abi.vaults vault)
    let auctionId ← Prog.ofOption "decode auctions" (node.abi.auctions auction)
    return {
      vaultId          := vaultId
      isInitialized    := true
      isCollateralized := decide (0 ≤ levelInt)
      level            := levelInt
      debt             := balances.1
      underAuction     := auctionId.1 ≠ 0
      seriesId         := vaultData.2.1
      ilkId            := vaultData.2.2
    }
  | _ => Prog.panic "assertion failed: single_vault_data.len() == 4"

-- Consecutive parts of a list, all of length `n` but the last one.
def chunks {α : Type} (n : ℕ) (l : List α) : List (List α) :=
  (List.range ((l.length + n - 1) / n)).map fun i => (l.drop (i * n)).take n

def getVaultInfoChunkParseResponse (idsChunk : List VaultIdType)
    (response : List (Bool × Bytes)) : Bot (List (Result Vault)) := do
  Prog.assert (response.length = idsChunk.length * 4) "Unexpected results len"
  Prog.collect (fun (d, v) => Prog.attempt (getVaultInfoGenerateVault node d v))
    ((chunks 4 response).zip idsChunk)

-- Repeats a request which fails, up to `n` times.
def retry {α : Type} (f : ℕ → Result α) : ℕ → Result α
  | 0     => f 0
  | n + 1 =>
    match retry f n with
    | .ok a    => .ok a
    | .error _ => f (n + 1)

def getVaultInfoChunk (idsChunk : List VaultIdType) : Bot (List (Result Vault)) := do
  let calls := getVaultInfoChunkGenerateMulticallArgs idsChunk
  match retry (fun i => node.tryAggregate i calls) 5 with
  | .ok response => getVaultInfoChunkParseResponse node idsChunk response
  | .error _     => Prog.panic "multicall2 failed"

-- Vaults which appear to be undercollateralized are checked once more: those which are to be ignored
-- are marked as collateralized.
def checkIgnored (singleVaultMaybe : Result Vault) : Bot (Result Vault) :=
  match singleVaultMaybe with
  | .error e => return .error e
  | .ok vault => do
    if vault.isCollateralized then
      return .ok vault
    match ← Prog.attempt
        (ImmutableCache.isVaultIgnored node vault.seriesId vault.ilkId vault.debt) with
    | .ok true  => return .ok { vault with isCollateralized := true }
    | .ok false => return .ok vault
    | .error e  => return .error e

def getVaultInfo (vaultIds : List VaultIdType) : Bot (List (Result Vault)) := do
  Prog.assert (0 < cfg.multicallBatchSize) "assertion failed: capacity > 0"
  let responses ← Prog.collect (getVaultInfoChunk node) (chunks cfg.multicallBatchSize vaultIds)
  let ret ← Prog.collect (checkIgnored node) responses.flatten
  Prog.assert (vaultIds.length = ret.length) "assertion failed: vault_ids.len() == ret.len()"
  return ret

def Vault.uninitialized (vaultId : VaultIdType) : Vault where
  vaultId          := vaultId
  isInitialized    := false
  isCollateralized := false
  debt             := 0
  level            := 0
  underAuction     := false
  seriesId         := 0
  ilkId            := 0

def insertVault (vaults : VaultMap) : Result Vault × VaultIdType → VaultMap
  | (.ok details, vaultId) => vaults.insert vaultId details
  | (.error _, vaultId)    => vaults.insert vaultId (Vault.uninitialized vaultId)

end Borrowers

-- The number of blocks of a query, and its results for all blocks from `fromBlock` until `toBlock`.
-- The queries are made concurrently, and all of them are awaited before the first error is returned.
section Batches

variable (cfg : Config) (node : Node)

def stepSize (fromBlock toBlock : U64) : U64 :=
  cfg.blocksPerBatch.getD (toBlock - fromBlock + 1)

def isWhitelisted (vaultId : VaultIdType) : Bool :=
  match cfg.vaultsWhitelist with
  | some w => decide (vaultId ∈ w)
  | none   => true

def queryBatches (query : U64 → U64 → Bot (List VaultIdType)) (fromBlock toBlock : U64) :
    Bot (List VaultIdType) := do
  let step := stepSize cfg fromBlock toBlock
  Prog.assert (step ≠ 0) "assertion failed: step != 0"
  let chunked ← Prog.collect
    (fun blockStart => Prog.attempt (query blockStart (blockStart + step - 1)))
    (node.order (stepBy fromBlock toBlock step))
  let ids ← Prog.ofResult (chunked.mapM id)
  return ids.flatten.filter (isWhitelisted cfg)

end Batches

namespace Borrowers

variable (cfg : Config) (node : Node)

def updateVaults (fromBlock toBlock : U64) : Bot Unit := do
  let newVaults ← queryBatches cfg node (getNewVaultIds node) fromBlock toBlock
  let k ← get
  let allVaults := merge newVaults k.borrowers.vaults
  let details ← getVaultInfo cfg node allVaults
  Bot.modifyVaults fun vaults => (details.zip allVaults).foldl insertVault vaults

end YieldLiquidator.Borrowers
