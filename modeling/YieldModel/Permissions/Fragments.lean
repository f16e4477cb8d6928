import YieldModel.Permissions.Basic

namespace Permissions

open AccessControl (ROOT)

namespace selector

-- Timelock
def propose         : Bytes4 := 0xca02753a
def proposeRepeated : Bytes4 := 0x013a652d
def approve         : Bytes4 := 0xa53a1adf
def executeProposal : Bytes4 := 0xbaae8abf
def executeRepeated : Bytes4 := 0xf9a28e8b

-- EmergencyBrake
def plan      : Bytes4 := 0xde8a0667
def cancel    : Bytes4 := 0x4c33fe94
def execute   : Bytes4 := 0x4b64e492
def restore   : Bytes4 := 0x080d2c75
def terminate : Bytes4 := 0xedb45529

-- Cauldron
def give             : Bytes4 := 0x798a828b
def slurp            : Bytes4 := 0x2b7b312f
def build            : Bytes4 := 0x272c0a6e
def destroy          : Bytes4 := 0x782006b6
def tweak            : Bytes4 := 0xb9af3920
def pour             : Bytes4 := 0xae8ad492
def stir             : Bytes4 := 0x2458028a
def roll             : Bytes4 := 0x6295afac
def addAsset         : Bytes4 := 0xe665f9e4
def addSeries        : Bytes4 := 0x96dcdf26
def addIlks          : Bytes4 := 0x53eecb77
def setDebtLimits    : Bytes4 := 0xd3fc152b
def setLendingOracle : Bytes4 := 0x55727d48
def setSpotOracle    : Bytes4 := 0x8ef6bdfa

-- Ladle
def addJoin        : Bytes4 := 0x49c29d2b
def addPool        : Bytes4 := 0x33e6035a
def addToken       : Bytes4 := 0xf6252c71
def addIntegration : Bytes4 := 0xf888f220
def addModule      : Bytes4 := 0x0a28e95d
def setFee         : Bytes4 := 0x69fe0e2d

-- Witch
def point               : Bytes4 := 0x1295bd08
def setAuctioneerReward : Bytes4 := 0x83c462a9
def setProtected        : Bytes4 := 0x8a7f997c
def setLineAndLimit     : Bytes4 := 0x3fa3c322

-- Joins, fyTokens and pools
def join              : Bytes4 := Fragments.selector.join
def exit              : Bytes4 := Fragments.selector.exit
def mint              : Bytes4 := Fragments.selector.mint
def burn              : Bytes4 := Fragments.selector.burn
def retrieve          : Bytes4 := 0xf06c2dfc
def retrieveERC1155   : Bytes4 := 0xea8cf74b
def setFlashFeeFactor : Bytes4 := 0x159c03dd
def setFees           : Bytes4 := 0xca1123c2
def init              : Bytes4 := 0x19ab453c

-- Strategy
def setRewardsToken : Bytes4 := 0xde320cc1
def setRewards      : Bytes4 := 0xa354f39e
def invest          : Bytes4 := 0x03f9c793
def eject           : Bytes4 := 0x82e94ac5
def restart         : Bytes4 := 0x1ef3755d

-- ERC20RewardsWrapper
def set  : Bytes4 := 0x2801617e
def skim : Bytes4 := 0x2d28b749

-- ConvexYieldWrapper
def pointJoin         : Bytes4 := 0x47e20183
def recoverERC20      : Bytes4 := 0xb51609b4
def shutdownAndRescue : Bytes4 := 0x4a7fb0bd

-- Giver
def banIlk : Bytes4 := 0xe4fd9dc5
def seize  : Bytes4 := 0x35775afb

-- TokenUpgrade
def register   : Bytes4 := 0x69b15fce
def unregister : Bytes4 := 0x4a45b60b
def extract    : Bytes4 := 0xb65fb24c
def recover    : Bytes4 := 0x648bf774

-- Shifter and PoolRestorer
def shift       : Bytes4 := 0x0c9695ce
def restorePool : Bytes4 := 0xe6164b70

end selector

-- The addresses of governance. Proposals are executed by the timelock.
structure Governance where
  timelock : Address
  cloak    : Address

variable (gov : Governance)

-- permissions

def grantRoot (host userAddress : Address) : Proposal :=
  [⟨host, .grantRole ROOT userAddress⟩]

def revokeRoot (host userAddress : Address) : Proposal :=
  [⟨host, .revokeRole ROOT userAddress⟩]

def grantPermission (permission : Role) : Proposal :=
  [⟨permission.host, .grantRoles [permission.role] permission.account⟩]

def revokePermission (permission : Role) : Proposal :=
  [⟨permission.host, .revokeRoles [permission.role] permission.account⟩]

-- Access to the cloak is given to the timelock, in spite of what the fragment says.
def grantGovernors (grantedAccounts : List Address) : Proposal :=
  grantedAccounts.flatMap fun grantedAccount =>
    [ ⟨gov.timelock, .grantRoles
        [selector.propose, selector.approve, selector.executeProposal] grantedAccount⟩,
      ⟨gov.cloak, .grantRoles
        [selector.plan, selector.cancel, selector.execute, selector.restore, selector.terminate]
        gov.timelock⟩ ]

def revokeGovernors (revokedAccounts : List Address) : Proposal :=
  revokedAccounts.flatMap fun revokedAccount =>
    [ ⟨gov.timelock, .revokeRoles
        [selector.propose, selector.proposeRepeated, selector.approve, selector.executeProposal,
          selector.executeRepeated] revokedAccount⟩,
      ⟨gov.cloak, .revokeRoles
        [selector.plan, selector.cancel, selector.execute, selector.restore, selector.terminate]
        revokedAccount⟩ ]

def grantDevelopers (grantedAccounts : List Address) : Proposal :=
  grantedAccounts.flatMap fun grantedAccount =>
    [ ⟨gov.timelock, .grantRoles [selector.propose, selector.executeProposal] grantedAccount⟩,
      ⟨gov.cloak, .grantRoles [selector.execute] grantedAccount⟩ ]

def revokeDevelopers (revokedAccounts : List Address) : Proposal :=
  revokedAccounts.flatMap fun revokedAccount =>
    [ ⟨gov.timelock, .revokeRoles
        [selector.propose, selector.proposeRepeated, selector.executeProposal,
          selector.executeRepeated] revokedAccount⟩,
      ⟨gov.cloak, .revokeRoles [selector.execute] revokedAccount⟩ ]

def revokeCloakExecute (revokedAccounts : List Address) : Proposal :=
  revokedAccounts.map fun revokedAccount =>
    ⟨gov.cloak, .revokeRoles [selector.execute] revokedAccount⟩

def revokeOrchestration (host userAddress : Address) (role : Bytes4) : Proposal :=
  [ ⟨host, .revokeRole role userAddress⟩,
    -- Remove orchestration from cloak
    ⟨gov.cloak, .remove userAddress [⟨host, role⟩]⟩ ]

-- cloak

def orchestrateCloak (deployer : Address) : Proposal :=
  [⟨gov.cloak, .revokeRole ROOT deployer⟩]

def addAsHostToCloak (host : Address) : Proposal :=
  grantRoot host gov.cloak

def addExecutorsToCloak (executors : List Address) : Proposal :=
  executors.map fun executor => ⟨gov.cloak, .grantRole selector.execute executor⟩

-- The Join of an fyToken is looked up by `joinOf`.
def addFYTokenToCloak (joinOf : Address → Address) (fyTokens : List Address) : Proposal :=
  fyTokens.map fun fyToken =>
    ⟨gov.cloak, .add fyToken [⟨joinOf fyToken, selector.join⟩, ⟨joinOf fyToken, selector.exit⟩]⟩

def addGiverToCloak (giver cauldron : Address) : Proposal :=
  [⟨gov.cloak, .add giver [⟨cauldron, selector.give⟩]⟩]

def addLeverToCloak (levers : List Address) (giver : Address) : Proposal :=
  levers.map fun lever => ⟨gov.cloak, .add lever [⟨giver, selector.seize⟩]⟩

def addLadleToCloak (hosts : Hosts) (cauldron ladle : Address) (fyTokens joins : List Address) :
    Proposal :=
  ⟨gov.cloak, .add ladle [⟨cauldron, selector.build⟩, ⟨cauldron, selector.destroy⟩,
    ⟨cauldron, selector.tweak⟩, ⟨cauldron, selector.pour⟩, ⟨cauldron, selector.stir⟩,
    ⟨cauldron, selector.roll⟩]⟩ ::
  fyTokens.map (fun fyToken =>
    ⟨gov.cloak, .add ladle [⟨fyToken, selector.mint⟩, ⟨fyToken, selector.burn⟩]⟩) ++
  joins.flatMap fun join =>
    if (hosts join).hasRole selector.join ladle then
      [⟨gov.cloak, .add ladle [⟨join, selector.join⟩, ⟨join, selector.exit⟩]⟩]
    else
      []

-- The loop bodies of `addWitchToCloak`: a role is only added if it is held.
def addIfHeld (hosts : Hosts) (witch host : Address) (signature : Bytes4) : Proposal :=
  if (hosts host).hasRole signature witch then
    [⟨gov.cloak, .add witch [⟨host, signature⟩]⟩]
  else
    []

def addWitchToCloak (hosts : Hosts) (cauldron witch : Address) (fyTokens joins : List Address) :
    Proposal :=
  ⟨gov.cloak, .add witch [⟨cauldron, selector.give⟩, ⟨cauldron, selector.slurp⟩]⟩ ::
  fyTokens.flatMap (addIfHeld gov hosts witch · selector.burn) ++
  joins.flatMap fun join =>
    addIfHeld gov hosts witch join selector.join ++ addIfHeld gov hosts witch join selector.exit

-- core

def orchestrateCauldron (deployer cauldron : Address) : Proposal :=
  [ ⟨cauldron, .grantRoles
      [selector.addAsset, selector.addSeries, selector.addIlks, selector.setDebtLimits,
        selector.setLendingOracle, selector.setSpotOracle] gov.timelock⟩,
    ⟨cauldron, .grantRole ROOT gov.cloak⟩ ] ++
  revokeRoot cauldron deployer

-- It is the Cauldron where the deployer loses ROOT.
def orchestrateLadle (deployer cauldron ladle : Address) : Proposal :=
  [ ⟨ladle, .grantRole ROOT gov.cloak⟩,
    ⟨ladle, .grantRoles
      [selector.addJoin, selector.addPool, selector.addToken, selector.addIntegration,
        selector.addModule, selector.setFee] gov.timelock⟩,
    ⟨cauldron, .grantRoles
      [selector.build, selector.destroy, selector.tweak, selector.give, selector.pour,
        selector.stir, selector.roll] ladle⟩ ] ++
  revokeRoot cauldron deployer

def orchestrateLadleToCauldron (cauldron ladle : Address) : Proposal :=
  [ ⟨cauldron, .grantRoles
      [selector.build, selector.destroy, selector.tweak, selector.pour, selector.stir,
        selector.roll] ladle⟩,
    ⟨gov.cloak, .add ladle [⟨cauldron, selector.build⟩, ⟨cauldron, selector.destroy⟩,
      ⟨cauldron, selector.tweak⟩, ⟨cauldron, selector.pour⟩, ⟨cauldron, selector.stir⟩,
      ⟨cauldron, selector.roll⟩]⟩ ]

def orchestrateWitch (deployer witch : Address) : Proposal :=
  [ ⟨witch, .grantRole ROOT gov.cloak⟩,
    ⟨witch, .grantRoles
      [selector.point, selector.setAuctioneerReward, selector.setProtected,
        selector.setLineAndLimit] gov.timelock⟩ ] ++
  revokeRoot witch deployer

def orchestrateWitchToCauldron (cauldron witch : Address) : Proposal :=
  [ ⟨cauldron, .grantRoles [selector.give, selector.slurp] witch⟩,
    ⟨gov.cloak, .add witch [⟨cauldron, selector.give⟩, ⟨cauldron, selector.slurp⟩]⟩ ]

-- assetsAndSeries, other/notional and pools

def orchestrateAnyJoin (signatures : List Bytes4) (deployer join : Address) : Proposal :=
  revokeRoot join deployer ++ addAsHostToCloak gov join ++
  [⟨join, .grantRoles signatures gov.timelock⟩]

def orchestrateJoin : (deployer join : Address) → Proposal :=
  orchestrateAnyJoin gov [selector.retrieve]

def orchestrateFlashJoin : (deployer join : Address) → Proposal :=
  orchestrateAnyJoin gov [selector.retrieve, selector.setFlashFeeFactor]

def orchestrateNotionalJoin : (deployer join : Address) → Proposal :=
  orchestrateAnyJoin gov [selector.retrieve, selector.retrieveERC1155]

def orchestrateFYToken (joinOf : Address → Address) (deployer fyToken : Address) : Proposal :=
  revokeRoot fyToken deployer ++ addAsHostToCloak gov fyToken ++
  [ -- Give governance permissions to the Timelock
    ⟨fyToken, .grantRoles [selector.point, selector.setFlashFeeFactor] gov.timelock⟩,
    -- Allow fyToken to join and exit on the underlying Join
    ⟨joinOf fyToken, .grantRoles [selector.join, selector.exit] fyToken⟩,
    -- Add join/fyToken orchestration to cloak
    ⟨gov.cloak, .add fyToken [⟨joinOf fyToken, selector.join⟩, ⟨joinOf fyToken, selector.exit⟩]⟩ ]

def orchestratePool (deployer pool : Address) : Proposal :=
  ⟨pool, .grantRoles [selector.setFees, selector.init] gov.timelock⟩ :: revokeRoot pool deployer

-- oracles

def orchestrateOracle (signatures : List Bytes4) (deployer oracle : Address) : Proposal :=
  [ ⟨oracle, .grantRoles signatures gov.timelock⟩,
    ⟨oracle, .grantRole ROOT gov.cloak⟩ ] ++
  revokeRoot oracle deployer

def orchestrateChainlinkOracle : (deployer oracle : Address) → Proposal :=
  orchestrateOracle gov [0xef532f2e]

def orchestrateChainlinkUSDOracle : (deployer oracle : Address) → Proposal :=
  orchestrateOracle gov [0x4137de3e]

def orchestrateCompositeOracle : (deployer oracle : Address) → Proposal :=
  orchestrateOracle gov [0x92b45d9c, 0x60509e5f]

def orchestrateCompoundOracle : (deployer oracle : Address) → Proposal :=
  orchestrateOracle gov [0x92b45d9c]

def orchestrateCvx3CrvOracle : (deployer oracle : Address) → Proposal :=
  orchestrateOracle gov [0x140a1439]

def orchestrateLidoOracle : (deployer oracle : Address) → Proposal :=
  orchestrateOracle gov [0xa8026912]

def orchestrateNotionalOracle : (deployer oracle : Address) → Proposal :=
  orchestrateOracle gov [0x92b45d9c]

def orchestrateStrategyOracle : (deployer oracle : Address) → Proposal :=
  orchestrateOracle gov [0xb3229f71]

def orchestrateUniswapOracle : (deployer oracle : Address) → Proposal :=
  orchestrateOracle gov [0xe4650418]

def orchestrateYearnOracle : (deployer oracle : Address) → Proposal :=
  orchestrateOracle gov [0x92b45d9c]

-- Neither the cloak nor the deployer is dealt with.
def orchestrateAccumulatorOracle (oracle : Address) : Proposal :=
  [⟨oracle, .grantRoles [0x991b5332, 0xaff005e2] gov.timelock⟩]

def orchestrateYieldSpaceMultiOracle (deployer oracle : Address) : Proposal :=
  ⟨oracle, .grantRole 0x92b45d9c gov.timelock⟩ :: revokeRoot oracle deployer

-- strategies

def orchestrateStrategy (deployer multisig ladle strategy : Address) : Proposal :=
  [ ⟨strategy, .grantRoles
      [selector.setRewardsToken, selector.setRewards, selector.init, selector.invest,
        selector.eject, selector.restart] gov.timelock⟩,
    ⟨strategy, .grantRoles [selector.eject] multisig⟩,
    -- Add the strategy as an integration and as a token to the Ladle
    ⟨ladle, .other⟩,
    ⟨ladle, .other⟩ ] ++
  revokeRoot strategy deployer

def orchestrateRewardsWrapper (deployer wrapper : Address) : Proposal :=
  ⟨wrapper, .grantRoles [selector.set, selector.skim, selector.mint] gov.timelock⟩ ::
  revokeRoot wrapper deployer

-- utils

def orchestrateConvexWrapper (deployer convexYieldWrapper : Address) : Proposal :=
  [ ⟨convexYieldWrapper, .grantRole selector.pointJoin gov.timelock⟩,
    ⟨convexYieldWrapper, .grantRole selector.recoverERC20 gov.timelock⟩,
    ⟨convexYieldWrapper, .grantRole selector.shutdownAndRescue gov.timelock⟩,
    ⟨convexYieldWrapper, .grantRole ROOT gov.cloak⟩,
    ⟨convexYieldWrapper, .revokeRole ROOT deployer⟩ ]

def orchestrateGiver (giver cauldron deployer : Address) : Proposal :=
  [ ⟨cauldron, .grantRoles [selector.give] giver⟩,
    ⟨giver, .grantRoles [selector.banIlk] gov.timelock⟩,
    ⟨giver, .revokeRole ROOT deployer⟩ ]

def orchestrateLever (lever giver : Address) : Proposal :=
  [ ⟨giver, .grantRoles [selector.give] lever⟩,
    ⟨giver, .grantRoles [selector.seize] lever⟩ ]

def orchestrateTokenUpgrade (deployer tokenUpgrade : Address) : Proposal :=
  ⟨tokenUpgrade, .grantRoles
    [selector.register, selector.unregister, selector.extract, selector.recover] gov.timelock⟩ ::
  revokeRoot tokenUpgrade deployer

-- emergency

def orchestratePoolRestorer (deployer poolRestorer : Address) : Proposal :=
  ⟨poolRestorer, .grantRoles [selector.restorePool] gov.timelock⟩ ::
  revokeRoot poolRestorer deployer

def isolatePoolRestorer (poolRestorer : Address) : Proposal :=
  [⟨poolRestorer, .revokeRoles [selector.restorePool] gov.timelock⟩]

def orchestrateShifter (deployer cauldron shifter : Address) : Proposal :=
  [ ⟨shifter, .grantRoles [selector.shift] gov.timelock⟩,
    ⟨cauldron, .grantRoles [selector.pour, selector.tweak] shifter⟩ ] ++
  revokeRoot shifter deployer

def isolateShifter (cauldron shifter : Address) : Proposal :=
  [⟨cauldron, .revokeRoles [selector.pour, selector.tweak] shifter⟩]

-- witch: the fragments for Joins and fyTokens, as far as roles and plans go

def Data.ofFragments : Fragments.Data → Data
  | .grantRole role account    => .grantRole role account
  | .grantRoles roles account  => .grantRoles roles account
  | .revokeRoles roles account => .revokeRoles roles account
  | .add user permissions      => .add user permissions
  | .remove user permissions   => .remove user permissions
  | .exit .. | .join .. | .addJoin .. | .setLineAndLimit .. => .other

def Proposal.ofFragments (p : Fragments.Proposal) : Proposal :=
  p.map fun tx => ⟨tx.target, .ofFragments tx.data⟩

-- The chain as these fragments see it when they look up roles.
def Hosts.view (hosts : Hosts) : Fragments.Chain Unit Unit where
  contracts a := .fyToken (hosts a)
  tokens _    := ⟨.empty 256 Address, fun _ _ => 0⟩
  cloak       := ()
  rest        := ()

-- replace

-- The Joins and fyTokens are looked up in the Ladle and the Cauldron.
def replaceWitch (joins fyTokenOf : Bytes6 → Address) (witch cauldron : Address)
    (auctionLineAndLimits : List Governance.AuctionLineAndLimit) (bases fyTokens : List Bytes6) :
    Proposal :=
  ⟨cauldron, .revokeRoles [selector.give, selector.slurp] witch⟩ ::
  bases.map (fun assetId => ⟨joins assetId, .revokeRole selector.join witch⟩) ++
  fyTokens.map (fun seriesId => ⟨fyTokenOf seriesId, .revokeRole selector.burn witch⟩) ++
  (auctionLineAndLimits.map (·.ilkId)).eraseDups.map fun ilkId =>
    ⟨joins ilkId, .revokeRole selector.exit witch⟩

-- The Contango Cauldron, Ladle and Witch are moved to a new cloak.

-- Nothing is changed by the check.
def checkPlan (assert : Address) (users : List Address) : Proposal :=
  users.map fun _ => ⟨assert, .other⟩

def replaceCloak (hosts : Hosts) (cloakV1 assert cauldron ladle witch : Address)
    (fyTokens joins users : List Address) : Proposal :=
  revokeRoot cauldron cloakV1 ++ grantRoot cauldron gov.cloak ++
  addLadleToCloak gov hosts cauldron ladle fyTokens joins ++
  addWitchToCloak gov hosts cauldron witch fyTokens joins ++
  checkPlan assert users

-- The fragments which share a body.

inductive JoinKind
  | plain
  | flash
  | notional

def JoinKind.orchestrate : JoinKind → (deployer join : Address) → Proposal
  | plain    => orchestrateJoin gov
  | flash    => orchestrateFlashJoin gov
  | notional => orchestrateNotionalJoin gov

inductive OracleKind
  | chainlink
  | chainlinkUSD
  | composite
  | compound
  | cvx3Crv
  | lido
  | notional
  | strategy
  | uniswap
  | yearn

def OracleKind.orchestrate : OracleKind → (deployer oracle : Address) → Proposal
  | chainlink    => orchestrateChainlinkOracle gov
  | chainlinkUSD => orchestrateChainlinkUSDOracle gov
  | composite    => orchestrateCompositeOracle gov
  | compound     => orchestrateCompoundOracle gov
  | cvx3Crv      => orchestrateCvx3CrvOracle gov
  | lido         => orchestrateLidoOracle gov
  | notional     => orchestrateNotionalOracle gov
  | strategy     => orchestrateStrategyOracle gov
  | uniswap      => orchestrateUniswapOracle gov
  | yearn        => orchestrateYearnOracle gov

-- All fragments which change roles. What they look up on the chain is `seen`, which need not be the
-- state in which the proposal is executed.
inductive Fragment (κ ω : Type)
  | grantRoot (host userAddress : Address)
  | revokeRoot (host userAddress : Address)
  | grantPermission (permission : Role)
  | revokePermission (permission : Role)
  | grantGovernors (grantedAccounts : List Address)
  | revokeGovernors (revokedAccounts : List Address)
  | grantDevelopers (grantedAccounts : List Address)
  | revokeDevelopers (revokedAccounts : List Address)
  | revokeCloakExecute (revokedAccounts : List Address)
  | revokeOrchestration (host userAddress : Address) (role : Bytes4)
  | orchestrateCloak (deployer : Address)
  | addAsHostToCloak (host : Address)
  | addExecutorsToCloak (executors : List Address)
  | addFYTokenToCloak (joinOf : Address → Address) (fyTokens : List Address)
  | addGiverToCloak (giver cauldron : Address)
  | addLeverToCloak (levers : List Address) (giver : Address)
  | addLadleToCloak (seen : Hosts) (cauldron ladle : Address) (fyTokens joins : List Address)
  | addWitchToCloak (seen : Hosts) (cauldron witch : Address) (fyTokens joins : List Address)
  | orchestrateCauldron (deployer cauldron : Address)
  | orchestrateLadle (deployer cauldron ladle : Address)
  | orchestrateLadleToCauldron (cauldron ladle : Address)
  | orchestrateWitch (deployer witch : Address)
  | orchestrateWitchToCauldron (cauldron witch : Address)
  | orchestrateJoin (kind : JoinKind) (deployer join : Address)
  | orchestrateFYToken (joinOf : Address → Address) (deployer fyToken : Address)
  | orchestratePool (deployer pool : Address)
  | orchestrateOracle (kind : OracleKind) (deployer oracle : Address)
  | orchestrateAccumulatorOracle (oracle : Address)
  | orchestrateYieldSpaceMultiOracle (deployer oracle : Address)
  | orchestrateStrategy (deployer multisig ladle strategy : Address)
  | orchestrateRewardsWrapper (deployer wrapper : Address)
  | orchestrateConvexWrapper (deployer convexYieldWrapper : Address)
  | orchestrateGiver (giver cauldron deployer : Address)
  | orchestrateLever (lever giver : Address)
  | orchestrateTokenUpgrade (deployer tokenUpgrade : Address)
  | orchestratePoolRestorer (deployer poolRestorer : Address)
  | isolatePoolRestorer (poolRestorer : Address)
  | orchestrateShifter (deployer cauldron shifter : Address)
  | isolateShifter (cauldron shifter : Address)
  | replaceWitch (joins fyTokenOf : Bytes6 → Address) (witch cauldron : Address)
      (auctionLineAndLimits : List Governance.AuctionLineAndLimit) (bases fyTokens : List Bytes6)
  | onJoins (sys : Fragments.System) (ext : Fragments.Externals κ ω) (seen : Fragments.Chain κ ω)
      (fragment : Fragments.Fragment)

variable {κ ω : Type}

def Fragment.build : Fragment κ ω → Call Proposal
  | grantRoot host userAddress                => .ok (Permissions.grantRoot host userAddress)
  | revokeRoot host userAddress               => .ok (Permissions.revokeRoot host userAddress)
  | grantPermission permission                => .ok (Permissions.grantPermission permission)
  | revokePermission permission               => .ok (Permissions.revokePermission permission)
  | grantGovernors grantedAccounts            => .ok (Permissions.grantGovernors gov grantedAccounts)
  | revokeGovernors revokedAccounts           => .ok (Permissions.revokeGovernors gov revokedAccounts)
  | grantDevelopers grantedAccounts           => .ok (Permissions.grantDevelopers gov grantedAccounts)
  | revokeDevelopers revokedAccounts          => .ok (Permissions.revokeDevelopers gov revokedAccounts)
  | revokeCloakExecute revokedAccounts        =>
    .ok (Permissions.revokeCloakExecute gov revokedAccounts)
  | revokeOrchestration host userAddress role =>
    .ok (Permissions.revokeOrchestration gov host userAddress role)
  | orchestrateCloak deployer                 => .ok (Permissions.orchestrateCloak gov deployer)
  | addAsHostToCloak host                     => .ok (Permissions.addAsHostToCloak gov host)
  | addExecutorsToCloak executors             => .ok (Permissions.addExecutorsToCloak gov executors)
  | addFYTokenToCloak joinOf fyTokens         =>
    .ok (Permissions.addFYTokenToCloak gov joinOf fyTokens)
  | addGiverToCloak giver cauldron            => .ok (Permissions.addGiverToCloak gov giver cauldron)
  | addLeverToCloak levers giver              => .ok (Permissions.addLeverToCloak gov levers giver)
  | addLadleToCloak seen cauldron ladle fyTokens joins =>
    .ok (Permissions.addLadleToCloak gov seen cauldron ladle fyTokens joins)
  | addWitchToCloak seen cauldron witch fyTokens joins =>
    .ok (Permissions.addWitchToCloak gov seen cauldron witch fyTokens joins)
  | orchestrateCauldron deployer cauldron     =>
    .ok (Permissions.orchestrateCauldron gov deployer cauldron)
  | orchestrateLadle deployer cauldron ladle  =>
    .ok (Permissions.orchestrateLadle gov deployer cauldron ladle)
  | orchestrateLadleToCauldron cauldron ladle =>
    .ok (Permissions.orchestrateLadleToCauldron gov cauldron ladle)
  | orchestrateWitch deployer witch           => .ok (Permissions.orchestrateWitch gov deployer witch)
  | orchestrateWitchToCauldron cauldron witch =>
    .ok (Permissions.orchestrateWitchToCauldron gov cauldron witch)
  | orchestrateJoin kind deployer join        => .ok (kind.orchestrate gov deployer join)
  | orchestrateFYToken joinOf deployer fyToken =>
    .ok (Permissions.orchestrateFYToken gov joinOf deployer fyToken)
  | orchestratePool deployer pool             => .ok (Permissions.orchestratePool gov deployer pool)
  | orchestrateOracle kind deployer oracle    => .ok (kind.orchestrate gov deployer oracle)
  | orchestrateAccumulatorOracle oracle       =>
    .ok (Permissions.orchestrateAccumulatorOracle gov oracle)
  | orchestrateYieldSpaceMultiOracle deployer oracle =>
    .ok (Permissions.orchestrateYieldSpaceMultiOracle gov deployer oracle)
  | orchestrateStrategy deployer multisig ladle strategy =>
    .ok (Permissions.orchestrateStrategy gov deployer multisig ladle strategy)
  | orchestrateRewardsWrapper deployer wrapper =>
    .ok (Permissions.orchestrateRewardsWrapper gov deployer wrapper)
  | orchestrateConvexWrapper deployer convexYieldWrapper =>
    .ok (Permissions.orchestrateConvexWrapper gov deployer convexYieldWrapper)
  | orchestrateGiver giver cauldron deployer  =>
    .ok (Permissions.orchestrateGiver gov giver cauldron deployer)
  | orchestrateLever lever giver              => .ok (Permissions.orchestrateLever lever giver)
  | orchestrateTokenUpgrade deployer tokenUpgrade =>
    .ok (Permissions.orchestrateTokenUpgrade gov deployer tokenUpgrade)
  | orchestratePoolRestorer deployer poolRestorer =>
    .ok (Permissions.orchestratePoolRestorer gov deployer poolRestorer)
  | isolatePoolRestorer poolRestorer          =>
    .ok (Permissions.isolatePoolRestorer gov poolRestorer)
  | orchestrateShifter deployer cauldron shifter =>
    .ok (Permissions.orchestrateShifter gov deployer cauldron shifter)
  | isolateShifter cauldron shifter           => .ok (Permissions.isolateShifter cauldron shifter)
  | replaceWitch joins fyTokenOf witch cauldron auctionLineAndLimits bases fyTokens =>
    .ok (Permissions.replaceWitch joins fyTokenOf witch cauldron auctionLineAndLimits bases fyTokens)
  | onJoins sys ext seen fragment             =>
    Proposal.ofFragments <$> Fragments.build sys ext seen fragment

end Permissions
