import YieldModel.Objects.Cauldron

namespace Governance

-- The types of the configuration files. Amounts have the widths of the parameters to which they are
-- encoded.

structure AuctionLineAndLimit where
  baseId               : Bytes6
  ilkId                : Bytes6
  duration             : Uint 32
  vaultProportion      : Uint 64
  collateralProportion : Uint 64
  max                  : Uint 128

structure DebtLimit where
  baseId : Bytes6
  ilkId  : Bytes6
  line   : Uint 96
  dust   : Uint 24
  dec    : Uint 8

structure Collateralization where
  baseId : Bytes6
  ilkId  : Bytes6
  oracle : Address
  ratio  : Uint 32

structure Ilk where
  baseId              : Bytes6
  ilkId               : Bytes6
  collateralization   : Collateralization
  debtLimits          : DebtLimit
  auctionLineAndLimit : Option AuctionLineAndLimit -- Only for liquidable ilks

def ETH : Bytes6 := 0x303000000000

def exitSignature : Bytes4 := 0x12e5ff77

-- The calls of which proposals consist.
inductive Data
  | setSpotOracle (baseId ilkId : Bytes6) (oracle : Address) (ratio : Uint 32)
  | setDebtLimits (baseId ilkId : Bytes6) (line : Uint 96) (dust : Uint 24) (dec : Uint 8)
  | setLineAndLimit (ilkId baseId : Bytes6) (duration : Uint 32)
      (vaultProportion collateralProportion : Uint 64) (max : Uint 128)
  | grantRole (role : Bytes4) (account : Address)
  | add (user host : Address) (signature : Bytes4)

structure Tx where
  target : Address
  data   : Data

abbrev Proposal := List Tx

-- The contracts for which proposals are built, and the roles at this time.
structure Contracts where
  cauldron : Address
  witch    : Address
  cloak    : Address
  joins    : Bytes6 → Option Address -- assetId, joinAddress
  hasRole  : Address → Bytes4 → Address → Bool

def updateCollateralization (c : Contracts) (p : Collateralization) : Proposal :=
  [⟨c.cauldron, .setSpotOracle p.baseId p.ilkId p.oracle p.ratio⟩]

def updateDebtLimits (c : Contracts) (ilk : Ilk) : Proposal :=
  let limits := ilk.debtLimits
  [⟨c.cauldron, .setDebtLimits ilk.baseId ilk.ilkId limits.line limits.dust limits.dec⟩]

def setLineAndLimit (c : Contracts) (p : AuctionLineAndLimit) : Proposal :=
  [⟨c.witch, .setLineAndLimit p.ilkId p.baseId p.duration p.vaultProportion p.collateralProportion
    p.max⟩]

def addIlkToWitch (c : Contracts) (p : AuctionLineAndLimit) (join : Address) : Proposal :=
  setLineAndLimit c p ++
  if ¬c.hasRole join exitSignature c.witch then
    [⟨join, .grantRole exitSignature c.witch⟩, ⟨c.cloak, .add c.witch join exitSignature⟩]
  else
    []

-- Every ilk is made a base for ETH as well, with a fixed collateralization.
def priceInEth (ilk : Ilk) : Collateralization where
  baseId := ilk.collateralization.ilkId
  ilkId  := ETH
  oracle := ilk.collateralization.oracle
  ratio  := 2000000

def makeIlk (c : Contracts) (ilk : Ilk) : Call Proposal :=
  match c.joins ilk.ilkId with
  | none      => .error "invalid contract address or ENS name"
  | some join =>
    let auction := match ilk.auctionLineAndLimit with
      | none   => []
      | some p => addIlkToWitch c p join
    .ok (updateCollateralization c ilk.collateralization ++ updateDebtLimits c ilk ++
      updateCollateralization c (priceInEth ilk) ++ auction)

def makeIlks (c : Contracts) (newIlks : List Ilk) : Call Proposal :=
  newIlks.foldlM (fun proposal ilk => do return proposal ++ (← makeIlk c ilk)) []

structure SpotOracle where
  oracle : Address
  ratio  : Uint 32
  deriving DecidableEq

-- The table of the Cauldron with which we are concerned, and everything else on the chain.
structure Chain (ω : Type) where
  spotOracles : Bytes6 × Bytes6 → SpotOracle
  rest        : ω

-- Executes a call. `effect` is what it does apart from the spot oracles.
def execute {ω : Type} (effect : Tx → Chain ω → Call ω) (s : Chain ω) (tx : Tx) :
    Call (Chain ω) := do
  let rest ← effect tx s
  match tx.data with
  | .setSpotOracle baseId ilkId oracle ratio => return {
      spotOracles := Function.update s.spotOracles (baseId, ilkId) ⟨oracle, ratio⟩
      rest
    }
  | _ => return { s with rest }

def executeAll {ω : Type} (effect : Tx → Chain ω → Call ω) (s : Chain ω) (proposal : Proposal) :
    Call (Chain ω) :=
  proposal.foldlM (execute effect) s

end Governance
