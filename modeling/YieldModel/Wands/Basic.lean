import YieldModel.Objects.AccessControl
import YieldModel.Objects.Cauldron
import YieldModel.Witch.Basic

-- The wands, contracts which onboard assets and series in one call.

namespace DataTypes

structure Debt where
  max : Uint 96
  min : Uint 24
  dec : Uint 8
  sum : Uint 128

structure SpotOracle where
  oracle : Address
  ratio  : Uint 32

end DataTypes

-- The constants with which wands are constructed. A series wand has no use for `witch` and `oracle`.
structure Wand where
  this   : Address
  ladle  : Address
  witch  : Address
  cloak  : Address
  oracle : Address

namespace Wand

-- The roles which are kept by all contracts, among them the wand itself.
abbrev Roles := Address → AccessControl

-- What a call of a wand is given: the sender, and the answers of other contracts. These do not
-- change the roles of a contract that is being onboarded, apart from those a deployed join has.
structure Context where
  sender            : Address
  assets            : Bytes6 → Address
  lendingOracles    : Bytes6 → Address
  series            : Bytes6 → DataTypes.Series
  spotOracles       : Bytes6 → Bytes6 → DataTypes.SpotOracle
  debt              : Bytes6 → Bytes6 → DataTypes.Debt
  joins             : Bytes6 → Address
  ilks              : Bytes6 → OldWitch.Ilk
  limits            : Bytes6 → OldWitch.Limits
  asset             : Address → Call Address
  underlying        : Address → Call Address
  addAsset          : Bytes6 → Address → Call Unit
  addSeries         : Bytes6 → Bytes6 → Address → Call Unit
  addIlks           : Bytes6 → List Bytes6 → Call Unit
  addPool           : Bytes6 → Address → Call Unit
  addJoin           : Bytes6 → Address → Call Unit
  setIlk            : Bytes6 → Uint 32 → Uint 64 → Uint 96 → Uint 24 → Uint 8 → Call Unit
  setSpotOracle     : Bytes6 → Bytes6 → Address → Uint 32 → Call Unit
  setDebtLimits     : Bytes6 → Bytes6 → Uint 96 → Uint 24 → Uint 8 → Call Unit
  setSource         : Bytes6 → Address → Bytes6 → Address → Address → Call Unit
  setNotionalSource : Bytes6 → Bytes6 → Address → Call Unit
  deploy            : Bytes6 → Bytes6 → Address → Uint 256 → Call (Address × AccessControl)

namespace selector

def join                   : Bytes4 := 0xceae3abd
def exit                   : Bytes4 := 0x12e5ff77
def mint                   : Bytes4 := 0x40c10f19
def burn                   : Bytes4 := 0x9dc29fac
def addSeries              : Bytes4 := 0xe9f88386
def addChainlinkCollateral : Bytes4 := 0xb4e26c88
def addfCashCollateral     : Bytes4 := 0x5080537e
def deployCollateral       : Bytes4 := 0x87482ae4

end selector

-- Calls a function of the access control of `contact`.
def Roles.call (r : Roles) (contact : Address) (f : AccessControl → Call AccessControl) :
    Call Roles := do
  let c ← f (r contact)
  return Function.update r contact c

end Wand

open Wand
open AccessControl (ROOT)

namespace CollateralWandBase

structure AuctionLimit where
  ilkId        : Bytes6
  duration     : Uint 32
  initialOffer : Uint 64
  line         : Uint 96
  dust         : Uint 24
  dec          : Uint 8

structure DebtLimit where
  baseId : Bytes6
  ilkId  : Bytes6
  ratio  : Uint 32
  line   : Uint 96
  dust   : Uint 24
  dec    : Uint 8

structure SeriesIlk where
  series : Bytes6
  ilkIds : List Bytes6

variable (w : Wand) (ctx : Context)

def _orchestrateJoin (r : Roles) (joinAddress deployer : Address) : Call Roles := do
  let r ← r.call joinAddress fun c => c.revokeRole w.this ROOT deployer
  r.call joinAddress fun c => c.grantRole w.this ROOT w.cloak

def _addAsset (r : Roles) (assetId : Bytes6) (joinAddress : Address) : Call Roles := do
  let asset ← ctx.asset joinAddress
  ctx.addAsset assetId asset
  -- Allow Ladle to join and exit on the asset Join
  let sigs := [selector.join, selector.exit]
  let r ← r.call joinAddress fun c => c.grantRoles w.this sigs w.ladle
  ctx.addJoin assetId joinAddress
  return r

def _updateDebtLimit (debtLimit : DebtLimit) : Call Unit := do
  ctx.setSpotOracle debtLimit.baseId debtLimit.ilkId w.oracle debtLimit.ratio
  ctx.setDebtLimits debtLimit.baseId debtLimit.ilkId debtLimit.line debtLimit.dust debtLimit.dec

def _updateAuctionLimit (auctionLimit : AuctionLimit) : Call Unit :=
  ctx.setIlk auctionLimit.ilkId auctionLimit.duration auctionLimit.initialOffer auctionLimit.line
    auctionLimit.dust auctionLimit.dec

def _makeIlk (r : Roles) (joinAddress : Address) (auctionLimit : AuctionLimit)
    (debtLimits : List DebtLimit) : Call Roles := do
  _updateAuctionLimit ctx auctionLimit
  -- Allow Witch to exit ilk
  let r ← r.call joinAddress fun c => c.grantRole w.this selector.exit w.witch
  debtLimits.forM (_updateDebtLimit w ctx)
  return r

def _addIlksToSeries (seriesIlks : List SeriesIlk) : Call Unit :=
  seriesIlks.forM fun seriesIlk => ctx.addIlks seriesIlk.series seriesIlk.ilkIds

end CollateralWandBase

open CollateralWandBase

namespace ChainlinkCollateralWand

def WETHID : Bytes6 := 0x303000000000
def WETH : Address := 0xC02aaA39b223FE8D0A0e5C4F27eAD9083C756Cc2

structure ChainlinkSource where
  quoteId : Bytes6
  quote   : Address
  source  : Address

variable (w : Wand) (ctx : Context)

def _updateChainLinkSource (s : ChainlinkSource) : Call Unit :=
  ctx.setSource WETHID WETH s.quoteId s.quote s.source

def addChainlinkCollateral (r : Roles) (assetId : Bytes6) (joinAddress deployer : Address)
    (chainlinkSource : ChainlinkSource) (auctionLimit : AuctionLimit) (debtLimits : List DebtLimit)
    (seriesIlks : List SeriesIlk) : Call Roles := do
  (r w.this).auth selector.addChainlinkCollateral ctx.sender
  let r ← _orchestrateJoin w r joinAddress deployer
  let r ← _addAsset w ctx r assetId joinAddress
  _updateChainLinkSource ctx chainlinkSource
  let r ← _makeIlk w ctx r joinAddress auctionLimit debtLimits
  _addIlksToSeries ctx seriesIlks
  return r

end ChainlinkCollateralWand

namespace FCashWand

-- The address of the fCash tokens.
def fCashAddress : Address := 0x1344A36A1B56144C3Bc62E7757377D288fDE0369

variable (w : Wand) (ctx : Context)

def _updateNotionalSource (notionalId underlyingId : Bytes6) (underlying : Address) : Call Unit :=
  ctx.setNotionalSource notionalId underlyingId underlying

def _revokeRoot (r : Roles) (joinAddress : Address) : Call Roles :=
  r.call joinAddress fun c => c.renounceRole w.this ROOT w.this

def _joinOrchestration (r : Roles) (assetId : Bytes6) (join : Address)
    (oldAssetId seriesId : Bytes6) : Call Roles := do
  let underlying ← ctx.underlying join
  -- old and new assetIds to have same underlying
  let oldUnderlying ← ctx.underlying (ctx.joins oldAssetId)
  Call.require (underlying = oldUnderlying) "Mismatched assetId"
  let series := ctx.series seriesId
  Call.require (underlying = ctx.assets series.baseId) "Mismatched series"
  let r ← _addAsset w ctx r assetId join
  _updateNotionalSource ctx assetId series.baseId underlying
  let ilk := ctx.ilks oldAssetId
  let limits := ctx.limits oldAssetId
  let auctionLimits : AuctionLimit := {
    ilkId        := assetId
    duration     := ilk.duration
    initialOffer := ilk.initialOffer
    line         := limits.line
    dust         := limits.dust
    dec          := limits.dec
  }
  let spotOracle := ctx.spotOracles series.baseId oldAssetId
  let debt := ctx.debt series.baseId oldAssetId
  let debtLimit : DebtLimit := {
    baseId := series.baseId
    ilkId  := assetId
    ratio  := spotOracle.ratio
    line   := debt.max
    dust   := debt.min
    dec    := debt.dec
  }
  let r ← _makeIlk w ctx r join auctionLimits [debtLimit]
  _addIlksToSeries ctx [{ series := seriesId, ilkIds := [assetId] }]
  return r

def addfCashCollateral (r : Roles) (assetId : Bytes6) (joinAddress : Address)
    (oldAssetId seriesId : Bytes6) : Call Roles := do
  (r w.this).auth selector.addfCashCollateral ctx.sender
  _joinOrchestration w ctx r assetId joinAddress oldAssetId seriesId

def deployCollateral (r : Roles) (assetId oldAssetId seriesId : Bytes6) (salt : Uint 256) :
    Call (Roles × Address) := do
  (r w.this).auth selector.deployCollateral ctx.sender
  -- deploy NJoins | fCashWand is ROOT for deployed joins
  let (join, roles) ← ctx.deploy oldAssetId assetId fCashAddress salt
  let r := Function.update r join roles
  let r ← _joinOrchestration w ctx r assetId join oldAssetId seriesId
  -- revoke ROOT from fCashWand after orchestration
  let r ← _revokeRoot w r join
  return (r, join)

end FCashWand

namespace SeriesWand

variable (w : Wand) (ctx : Context)

def _orchestrateFyToken (r : Roles) (join fyToken : Address) : Call Roles := do
  -- Allow the fyToken to pull from the base join for redemption, and to push to mint with underlying
  let sigs := [selector.join, selector.exit]
  let r ← r.call join fun c => c.grantRoles w.this sigs fyToken
  -- Allow the ladle to issue and cancel fyToken
  let sigs := [selector.mint, selector.burn]
  let r ← r.call fyToken fun c => c.grantRoles w.this sigs w.ladle
  let r ← r.call fyToken fun c => c.grantRole w.this ROOT w.cloak
  r.call fyToken fun c => c.renounceRole w.this ROOT w.this

def addSeries (r : Roles) (seriesId baseId : Bytes6) (ilkIds : List Bytes6)
    (fyToken pool : Address) : Call Roles := do
  (r w.this).auth selector.addSeries ctx.sender
  Call.require (ctx.assets baseId ≠ 0) "Base not found"
  let baseJoin := ctx.joins baseId
  Call.require (baseJoin ≠ 0) "Join not found"
  Call.require (ctx.lendingOracles baseId ≠ 0) "Chi oracle not found"
  let r ← _orchestrateFyToken w r baseJoin fyToken
  ctx.addSeries seriesId baseId fyToken
  ctx.addIlks seriesId ilkIds
  ctx.addPool seriesId pool
  return r

end SeriesWand
