import YieldModel.Lib.Ledger
import YieldModel.Objects.AccessControl
import YieldModel.Objects.Cauldron

-- The token contracts apart from the strategy itself, by their addresses.
abbrev Tokens := Address → Ledger 256 Address

def Tokens.safeTransfer (t : Tokens) (token src dst : Address) (n : ℕ) : Call Tokens := do
  let l ← (t token).transfer src dst n
  return Function.update t token l

structure StrategyV1 where
  roles        : AccessControl
  base         : Address
  baseId       : Bytes6
  baseJoin     : Address
  ladle        : Address
  cauldron     : Address
  pool         : Address
  seriesId     : Bytes6
  fyToken      : Address
  nextPool     : Address
  nextSeriesId : Bytes6
  cached       : Uint 256
  invariants   : Address → Uint 128
  -- The strategy is a token itself. These are its `_balanceOf` and `_totalSupply`.
  shares       : Ledger 256 Address

namespace StrategyV1

structure State where
  strategy : StrategyV1
  tokens   : Tokens

-- What a call of the strategy is given: the sender, the block, and what other contracts answer or
-- do to the balances of tokens.
structure Context where
  sender             : Address
  block              : Block
  ladleCauldron      : Address → Call Address
  joins              : Address → Bytes6 → Call Address
  assets             : Address → Bytes6 → Call Address
  series             : Address → Bytes6 → Call DataTypes.Series
  poolBase           : Address → Call Address
  poolFYToken        : Address → Call Address
  maturity           : Address → Call (Uint 32)
  invariant          : Tokens → Address → Call (Uint 128)
  mintWithUnderlying : Tokens → Address → Address → ℕ → Call Tokens
  redeem             : Tokens → Address → Address → ℕ → Call Tokens
  poolMint           : Tokens → Address → Address → Address → Uint 256 → Uint 256 →
                       Call (Tokens × Uint 256)
  poolBurn           : Tokens → Address → Address → Address → Uint 256 → Uint 256 →
                       Call (Tokens × Uint 256)
  spend              : Address → Address → ℕ → Call Unit

namespace selector

def setYield       : Bytes4 := 0xd95edafe
def setTokenId     : Bytes4 := 0xe9e5d6d0
def resetTokenJoin : Bytes4 := 0xdd46e854
def setNextPool    : Bytes4 := 0x8737a2dc
def startPool      : Bytes4 := 0xf8c2b773

end selector

def init (sender ladle cauldron base : Address) (baseId : Bytes6) (baseJoin : Address)
    (tokens : Tokens) : State where
  strategy := {
    roles := .init sender
    base, baseId, baseJoin, ladle, cauldron
    pool := 0, seriesId := 0, fyToken := 0, nextPool := 0, nextSeriesId := 0
    cached := 0
    invariants _ := 0
    shares := .empty 256 Address
  }
  tokens := tokens

def poolSelected (s : State) : Call Unit :=
  Call.require (s.strategy.pool ≠ 0) "Pool not selected"

def poolNotSelected (s : State) : Call Unit :=
  Call.require (s.strategy.pool = 0) "Pool selected"

-- A call to an account without code reverts, and the zero address has no code.
def callable (a : Address) : Call Unit :=
  Call.require (a ≠ 0) ""

def afterMaturity (s : State) (ctx : Context) : Call Unit := do
  callable s.strategy.fyToken
  let maturity ← ctx.maturity s.strategy.fyToken
  Call.require (maturity ≤ Uint.truncate 32 ctx.block.timestamp) "Only after maturity"

def divUp (a b : ℕ) : Call ℕ := do
  Call.require (b ≠ 0) "Panic(0x12)"
  return if a % b = 0 then a / b else a / b + 1

def div (a b : ℕ) : Call ℕ := do
  Call.require (b ≠ 0) "Panic(0x12)"
  return a / b

def setYield (s : State) (ctx : Context) (ladle_ : Address) : Call State := do
  poolNotSelected s
  s.strategy.roles.auth selector.setYield ctx.sender
  let cauldron_ ← ctx.ladleCauldron ladle_
  return { s with strategy.ladle := ladle_, strategy.cauldron := cauldron_ }

def setTokenId (s : State) (ctx : Context) (baseId_ : Bytes6) : Call State := do
  poolNotSelected s
  s.strategy.roles.auth selector.setTokenId ctx.sender
  let cauldron ← ctx.ladleCauldron s.strategy.ladle
  let asset ← ctx.assets cauldron baseId_
  Call.require (asset = s.strategy.base) "Mismatched baseId"
  return { s with strategy.baseId := baseId_ }

def resetTokenJoin (s : State) (ctx : Context) : Call State := do
  poolNotSelected s
  s.strategy.roles.auth selector.resetTokenJoin ctx.sender
  let baseJoin ← ctx.joins s.strategy.ladle s.strategy.baseId
  return { s with strategy.baseJoin := baseJoin }

def setNextPool (s : State) (ctx : Context) (pool_ : Address) (seriesId_ : Bytes6) :
    Call State := do
  s.strategy.roles.auth selector.setNextPool ctx.sender
  let base ← ctx.poolBase pool_
  Call.require (s.strategy.base = base) "Mismatched base"
  let series ← ctx.series s.strategy.cauldron seriesId_
  let fyToken ← ctx.poolFYToken pool_
  Call.require (series.fyToken = fyToken) "Mismatched seriesId"
  return { s with strategy.nextPool := pool_, strategy.nextSeriesId := seriesId_ }

def startPool (this : Address) (s : State) (ctx : Context) (minRatio maxRatio : Uint 256) :
    Call State := do
  s.strategy.roles.auth selector.startPool ctx.sender
  poolNotSelected s
  let pool_ := s.strategy.nextPool
  Call.require (pool_ ≠ 0) "Next pool not set"
  let fyToken_ ← ctx.poolFYToken pool_
  let base := s.strategy.base
  let baseBalance := (s.tokens base).balanceOf this
  Call.require (0 < baseBalance) "No funds to start with"
  let baseInPool := (s.tokens base).balanceOf pool_
  let fyTokenInPool := (s.tokens fyToken_).balanceOf pool_
  let product ← Uint.cast 256 (baseBalance * baseInPool)
  let sum ← Uint.cast 256 (baseInPool + fyTokenInPool)
  let baseToPool ← divUp product sum
  let fyTokenToPool ← Uint.diff baseBalance baseToPool
  let t ← s.tokens.safeTransfer base this s.strategy.baseJoin fyTokenToPool
  let t ← ctx.mintWithUnderlying t fyToken_ pool_ fyTokenToPool
  let t ← t.safeTransfer base this pool_ baseToPool
  let (t, cached) ← ctx.poolMint t pool_ this this minRatio maxRatio
  let shares ← (if s.strategy.shares.totalSupply = 0 then
      s.strategy.shares.mint ctx.sender cached
    else
      return s.strategy.shares)
  let invariant ← ctx.invariant t pool_
  return {
    strategy := { s.strategy with
      pool         := pool_
      fyToken      := fyToken_
      seriesId     := s.strategy.nextSeriesId
      nextPool     := 0
      nextSeriesId := 0
      cached       := cached
      shares       := shares
      invariants   := Function.update s.strategy.invariants pool_ invariant
    }
    tokens := t
  }

def endPool (this : Address) (s : State) (ctx : Context) : Call State := do
  afterMaturity s ctx
  let pool_ := s.strategy.pool
  let fyToken_ := s.strategy.fyToken
  callable pool_
  let toDivest := (s.tokens pool_).balanceOf this
  let t ← s.tokens.safeTransfer pool_ this pool_ toDivest
  let (t, fyTokenDivested) ← ctx.poolBurn t pool_ this this 0 (Uint.max 256)
  let t ← t.safeTransfer fyToken_ this fyToken_ fyTokenDivested
  let t ← ctx.redeem t fyToken_ this fyTokenDivested
  return {
    strategy := { s.strategy with pool := 0, fyToken := 0, seriesId := 0, cached := 0 }
    tokens   := t
  }

def mint (this : Address) (s : State) (to_ : Address) : Call (State × ℕ) := do
  poolSelected s
  let cached_ := s.strategy.cached
  let deposit ← Uint.diff ((s.tokens s.strategy.pool).balanceOf this) cached_
  let product ← Uint.cast 256 (s.strategy.shares.totalSupply * deposit)
  let minted ← div product cached_
  let cached ← Uint.cast 256 (cached_ + deposit)
  let shares ← s.strategy.shares.mint to_ minted
  return ({ s with strategy.cached := cached, strategy.shares := shares }, minted)

def burn (this : Address) (s : State) (to_ : Address) : Call (State × ℕ) := do
  poolSelected s
  let cached_ := s.strategy.cached
  let burnt := s.strategy.shares.balanceOf this
  let product ← Uint.cast 256 (cached_ * burnt)
  let withdrawal ← div product s.strategy.shares.totalSupply
  let left ← Uint.diff cached_ withdrawal
  let cached ← Uint.cast 256 left
  let shares ← s.strategy.shares.burn this burnt
  let t ← s.tokens.safeTransfer s.strategy.pool this to_ withdrawal
  return ({ strategy := { s.strategy with cached, shares }, tokens := t }, withdrawal)

def burnForBase (this : Address) (s : State) (to_ : Address) : Call (State × ℕ) := do
  poolNotSelected s
  let burnt := s.strategy.shares.balanceOf this
  let product ← Uint.cast 256 ((s.tokens s.strategy.base).balanceOf this * burnt)
  let withdrawal ← div product s.strategy.shares.totalSupply
  let shares ← s.strategy.shares.burn this burnt
  let t ← s.tokens.safeTransfer s.strategy.base this to_ withdrawal
  return ({ strategy := { s.strategy with shares }, tokens := t }, withdrawal)

-- The transfers of shares. The sender has to have been approved by the holder of the shares.
def transferFrom (s : State) (ctx : Context) (src dst : Address) (n : ℕ) : Call State := do
  let _ ← (if src ≠ ctx.sender then ctx.spend src ctx.sender n else return ())
  let shares ← s.strategy.shares.transfer src dst n
  return { s with strategy.shares := shares }

inductive Action
  | setYield (ladle_ : Address)
  | setTokenId (baseId_ : Bytes6)
  | resetTokenJoin
  | setNextPool (pool_ : Address) (seriesId_ : Bytes6)
  | startPool (minRatio maxRatio : Uint 256)
  | endPool
  | mint (to_ : Address)
  | burn (to_ : Address)
  | burnForBase (to_ : Address)
  | transferFrom (src dst : Address) (n : ℕ)

def exec (this : Address) (s : State) (ctx : Context) : Action → Call State
  | .setYield ladle_              => setYield s ctx ladle_
  | .setTokenId baseId_           => setTokenId s ctx baseId_
  | .resetTokenJoin               => resetTokenJoin s ctx
  | .setNextPool pool_ seriesId_  => setNextPool s ctx pool_ seriesId_
  | .startPool minRatio maxRatio  => startPool this s ctx minRatio maxRatio
  | .endPool                      => endPool this s ctx
  | .mint to_                     => Prod.fst <$> mint this s to_
  | .burn to_                     => Prod.fst <$> burn this s to_
  | .burnForBase to_              => Prod.fst <$> burnForBase this s to_
  | .transferFrom src dst n       => transferFrom s ctx src dst n

end StrategyV1
