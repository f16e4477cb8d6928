import YieldModel.Objects.Cauldron
import YieldModel.Objects.ERC20

structure ConvexPoolMock where
  rewardToken  : Address
  stakingToken : Address
  cvx          : Address
  totalSupply  : Uint 256
  balances     : Address → Uint 256

namespace ConvexYieldWrapperMock

-- What is kept for each token in which rewards are paid.
structure Rewards where
  integral    : Uint 256
  remaining   : Uint 256
  integralFor : Address → Uint 256
  claimable   : Address → Uint 256

structure RewardType extends Rewards where
  rewardToken : Address
  rewardPool  : Address

end ConvexYieldWrapperMock

-- The rewards in CVX are those which are kept under names that begin with `cvx`.
open ConvexYieldWrapperMock in
structure ConvexYieldWrapperMock where
  token           : ERC20
  vaults          : Address → List Bytes12
  cauldron        : Address
  cvxRewards      : Rewards
  crv             : Address
  cvx             : Address
  convexToken     : Address
  convexPool      : Address
  convexPoolId    : Uint 256
  collateralVault : Address
  rewards         : List RewardType

namespace ConvexYieldWrapperMock

-- The other contracts which are used, by their addresses.
structure World where
  tokens    : Address → ERC20
  cauldrons : Address → Cauldron
  pools     : Address → ConvexPoolMock

structure State extends ConvexYieldWrapperMock, World

namespace World

def balanceOf (w : World) (token guy : Address) : Uint 256 :=
  ⟨(w.tokens token).balanceOf guy,
    ((w.tokens token).balances.balanceOf_le guy).trans_lt (Fin.isLt _)⟩

def transfer (w : World) (token sender dst : Address) (wad : Uint 256) : Call World := do
  let t ← (w.tokens token).transfer sender dst wad
  return { w with tokens := Function.update w.tokens token t }

def transferFrom (w : World) (token sender src dst : Address) (wad : Uint 256) : Call World := do
  let t ← (w.tokens token).transferFrom sender src dst wad
  return { w with tokens := Function.update w.tokens token t }

def approve (w : World) (token sender spender : Address) (wad : Uint 256) : World := { w with
  tokens := Function.update w.tokens token ((w.tokens token)._setAllowance sender spender wad)
}

-- The functions of the pool at an address. Its fixed reward goes by the balance of the sender.
def getReward (w : World) (pool sender account : Address) : Call World := do
  let p := w.pools pool
  let w ← w.transfer p.rewardToken pool account (p.balances sender)
  w.transfer p.cvx pool account (p.balances sender)

def stake (w : World) (pool sender : Address) (amount : Uint 256) : Call World := do
  let p := w.pools pool
  Call.require (0 < amount) "RewardPool : Cannot stake 0"
  let totalSupply ← Uint.add p.totalSupply amount
  let balance ← Uint.add (p.balances sender) amount
  let p := { p with totalSupply, balances := Function.update p.balances sender balance }
  let w := { w with pools := Function.update w.pools pool p }
  w.transferFrom p.stakingToken pool sender pool amount

def withdraw (w : World) (pool sender : Address) (amount : Uint 256) : Call World := do
  let p := w.pools pool
  Call.require (0 < amount) "RewardPool : Cannot withdraw 0"
  let totalSupply ← Uint.sub p.totalSupply amount
  let balance ← Uint.sub (p.balances sender) amount
  let p := { p with totalSupply, balances := Function.update p.balances sender balance }
  let w := { w with pools := Function.update w.pools pool p }
  w.transfer p.stakingToken pool sender amount

end World

namespace State

variable (s : State)

def setCauldron (cauldron : Address) : State :=
  { s with cauldron }

def addVault (vault : Bytes12) : Call State := do
  let account := ((s.cauldrons s.cauldron).vaults vault).owner
  Call.require (account ≠ 0) "No owner for the vault"
  Call.require (∀ v ∈ s.vaults account, v ≠ vault) "already added"
  return { s with vaults := Function.update s.vaults account (s.vaults account ++ [vault]) }

def removeVault (vaultId : Bytes12) (account : Address) : State := { s with
  vaults := Function.update s.vaults account
    ((s.vaults account).map fun v => if v = vaultId then 0 else v)
}

-- The body of the loop over the vaults of an account.
def addCollateral (account : Address) (collateral : Uint 256) (vault : Bytes12) :
    Call (Uint 256) :=
  if vault ≠ 0 ∧ ((s.cauldrons s.cauldron).vaults vault).owner = account then
    Uint.cast 256 (collateral + ((s.cauldrons s.cauldron).balances vault).ink)
  else
    return collateral

def _getDepositedBalance (account : Address) : Call (Uint 256) :=
  if account = 0 ∨ account = s.collateralVault then
    return 0
  else do
    let collateral ← (s.vaults account).foldlM (s.addCollateral account) 0
    Uint.cast 256 (s.token.balanceOf account + collateral)

end State

-- What the loops over accounts change.
structure Payout where
  rewards : Rewards
  world   : World
  bal     : Uint 256

-- What an account has earned, with a balance of `balance`, since its rewards were updated.
def Rewards.receiveable (r : Rewards) (account : Address) (balance : Uint 256) :
    Call (Uint 256) := do
  let d ← Uint.sub r.integral (r.integralFor account)
  let product ← Uint.mul balance d
  let earned ← Uint.div product 100000000000000000000
  Uint.add (r.claimable account) earned

def Rewards.update (r : Rewards) (account : Address) (claimable : Uint 256) : Rewards := { r with
  claimable   := Function.update r.claimable account claimable
  integralFor := Function.update r.integralFor account r.integral
}

-- The body of the loops over accounts, which is the same for all tokens.
def updateUser (this token collateralVault : Address) (isClaim : Bool) (p : Payout)
    (u : Address × Uint 256) : Call Payout :=
  if u.1 = 0 ∨ u.1 = collateralVault then
    return p
  else if isClaim then do
    let receiveable ← p.rewards.receiveable u.1 u.2
    if 0 < receiveable then
      let world ← p.world.transfer token this u.1 receiveable
      let bal ← Uint.sub p.bal receiveable
      return { rewards := p.rewards.update u.1 0, world, bal }
    else
      return { p with rewards := p.rewards.update u.1 (p.rewards.claimable u.1) }
  else if p.rewards.integralFor u.1 < p.rewards.integral then do
    let receiveable ← p.rewards.receiveable u.1 u.2
    return { p with rewards := p.rewards.update u.1 receiveable }
  else
    return p

def Rewards.accrue (r : Rewards) (d supply : Uint 256) : Call Rewards := do
  let scaled ← Uint.mul d 100000000000000000000
  let share ← Uint.div scaled supply
  let integral ← Uint.add r.integral share
  return { r with integral }

def _calcCvxIntegral (this collateralVault cvx : Address) (accounts : List (Address × Uint 256))
    (supply : Uint 256) (isClaim : Bool) (r : Rewards) (w : World) : Call (Rewards × World) := do
  let bal := w.balanceOf cvx this
  let d ← Uint.sub bal r.remaining
  let r ← (if 0 < supply ∧ 0 < d then r.accrue d supply else return r)
  let p ← accounts.foldlM (updateUser this cvx collateralVault isClaim) ⟨r, w, bal⟩
  return ({ p.rewards with remaining := p.bal }, p.world)

-- The difference is only computed if there is a supply, and what remains is cut to 128 bits.
def _calcRewardIntegral (this collateralVault : Address) (accounts : List (Address × Uint 256))
    (supply : Uint 256) (isClaim : Bool) (r : RewardType) (w : World) :
    Call (RewardType × World) := do
  let bal := w.balanceOf r.rewardToken this
  let rewards ← (if 0 < supply then do
      let d ← Uint.sub bal r.remaining
      if 0 < d then r.toRewards.accrue d supply else return r.toRewards
    else
      return r.toRewards)
  let p ← accounts.foldlM (updateUser this r.rewardToken collateralVault isClaim) ⟨rewards, w, bal⟩
  let remaining :=
    if p.bal ≠ p.rewards.remaining then Uint.truncate 256 (Uint.truncate 128 p.bal)
    else p.rewards.remaining
  return ({ r with toRewards := { p.rewards with remaining } }, p.world)

def calcRewardIntegrals (this collateralVault : Address) (accounts : List (Address × Uint 256))
    (supply : Uint 256) (isClaim : Bool) :
    List RewardType → World → Call (List RewardType × World)
  | [], w      => return ([], w)
  | r :: rs, w => do
    let (r, w) ← _calcRewardIntegral this collateralVault accounts supply isClaim r w
    let (rs, w) ← calcRewardIntegrals this collateralVault accounts supply isClaim rs w
    return (r :: rs, w)

namespace State

variable (this : Address) (s : State)

-- What both kinds of checkpoints do once the balances are known.
def updateRewards (accounts : List (Address × Uint 256)) (isClaim : Bool) : Call State := do
  let supply := s.token.balances.totalSupply
  let w ← s.toWorld.getReward s.convexPool this this
  let (rewards, w) ←
    calcRewardIntegrals this s.collateralVault accounts supply isClaim s.rewards w
  let (cvxRewards, w) ←
    _calcCvxIntegral this s.collateralVault s.cvx accounts supply isClaim s.cvxRewards w
  return { s with rewards, cvxRewards, toWorld := w }

def _checkpoint (account₀ account₁ : Address) : Call State := do
  let b₀ ← s._getDepositedBalance account₀
  let b₁ ← s._getDepositedBalance account₁
  s.updateRewards this [(account₀, b₀), (account₁, b₁)] false

-- Only the first balance is looked up.
def _checkpointAndClaim (account₀ account₁ : Address) : Call State := do
  let b₀ ← s._getDepositedBalance account₀
  s.updateRewards this [(account₀, b₀), (account₁, 0)] true

def wrap (to_ from_ : Address) : Call State := do
  let amount := s.toWorld.balanceOf s.convexToken this
  Call.require (0 < amount) "No cvx3CRV to wrap"
  let s ← s._checkpoint this 0 from_
  let balances ← s.token.balances.mint to_ amount
  let w ← s.toWorld.stake s.convexPool this amount
  return { s with token := { s.token with balances }, toWorld := w }

def unwrap (to_ : Address) : Call State := do
  let amount := s.token.balanceOf this
  Call.require (0 < amount) "No wcvx3CRV to unwrap"
  let s ← s._checkpoint this 0 to_
  let balances ← s.token.balances.burn this amount
  let amount ← Uint.cast 256 amount
  let w ← s.toWorld.withdraw s.convexPool this amount
  let w ← w.transfer s.convexToken this to_ amount
  return { s with token := { s.token with balances }, toWorld := w }

def getReward (account : Address) : Call State :=
  s._checkpointAndClaim this account 0

def userCheckpoint (account₀ account₁ : Address) : Call State :=
  s._checkpoint this account₀ account₁

def setApprovals : State :=
  let w := s.toWorld.approve s.convexToken this s.convexPool 0
  { s with toWorld := w.approve s.convexToken this s.convexPool (Uint.max 256) }

def addRewards : State :=
  if s.rewards.length = 0 then { s with rewards := s.rewards ++ [{
    integral    := 0
    remaining   := 0
    integralFor := fun _ => 0
    claimable   := fun _ => 0
    rewardToken := s.crv
    rewardPool  := s.convexPool
  }] }
  else s

def point (join : Address) : State :=
  { s with collateralVault := join }

end State

def init (this convexToken convexPool : Address) (poolId : Uint 256)
    (join cauldron crv cvx : Address) (w : World) : State :=
  let s : State := {
    token           := ⟨.empty 256 Address, fun _ _ => 0⟩
    vaults          := fun _ => []
    cvxRewards      := ⟨0, 0, fun _ => 0, fun _ => 0⟩
    convexPoolId    := poolId
    collateralVault := join
    rewards         := []
    cauldron, crv, cvx, convexToken, convexPool
    toWorld         := w
  }
  (s.setApprovals this).addRewards

-- The external functions, those of the token included.
inductive Action
  | setCauldron (cauldron : Address)
  | addVault (vault : Bytes12)
  | removeVault (vaultId : Bytes12) (account : Address)
  | wrap (to_ from_ : Address)
  | unwrap (to_ : Address)
  | getReward (account : Address)
  | userCheckpoint (account₀ account₁ : Address)
  | setApprovals
  | addRewards
  | point (join : Address)
  | approve (sender spender : Address) (wad : Uint 256)
  | transfer (sender dst : Address) (wad : Uint 256)
  | transferFrom (sender src dst : Address) (wad : Uint 256)

def exec (this : Address) (s : State) : Action → Call State
  | .setCauldron cauldron              => return s.setCauldron cauldron
  | .addVault vault                    => s.addVault vault
  | .removeVault vaultId account       => return s.removeVault vaultId account
  | .wrap to_ from_                    => s.wrap this to_ from_
  | .unwrap to_                        => s.unwrap this to_
  | .getReward account                 => s.getReward this account
  | .userCheckpoint account₀ account₁  => s.userCheckpoint this account₀ account₁
  | .setApprovals                      => return s.setApprovals this
  | .addRewards                        => return s.addRewards
  | .point join                        => return s.point join
  | .approve sender spender wad        =>
    return { s with token := s.token._setAllowance sender spender wad }
  | .transfer sender dst wad           => do
    return { s with token := ← s.token.transfer sender dst wad }
  | .transferFrom sender src dst wad   => do
    return { s with token := ← s.token.transferFrom sender src dst wad }

end ConvexYieldWrapperMock
