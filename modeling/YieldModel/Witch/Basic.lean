import YieldModel.Objects.AccessControl
import YieldModel.Objects.Cauldron
import YieldModel.Objects.Math

open Math

namespace OldWitch

structure Auction where
  owner : Address
  start : Uint 32

structure Ilk where
  duration     : Uint 32
  initialOffer : Uint 64

structure Limits where
  line : Uint 96
  dust : Uint 24
  dec  : Uint 8
  sum  : Uint 128

end OldWitch

structure OldWitch where
  roles    : AccessControl
  ladle    : Address
  auctions : Bytes12 → OldWitch.Auction
  ilks     : Bytes6 → OldWitch.Ilk
  limits   : Bytes6 → OldWitch.Limits

namespace OldWitch

-- The Witch together with the accounts of the Cauldron, the only state it shares with others.
structure State where
  witch    : OldWitch
  cauldron : Cauldron

-- What a call of the Witch is given: the sender, the block, and the answers of other contracts.
structure Context where
  sender       : Address
  block        : Block
  level        : Bytes12 → ℤ
  series       : Bytes6 → DataTypes.Series
  debtFromBase : Bytes6 → Uint 128 → Call (Uint 128)
  debtToBase   : Bytes6 → Uint 128 → Call (Uint 128)
  slurp        : Bytes12 → Uint 128 → Uint 128 → Call Unit
  joins        : Address → Bytes6 → Address
  exit         : Address → Address → Uint 128 → Call Unit
  join         : Address → Address → Uint 128 → Call Unit

-- The state after construction. Mappings are zero everywhere.
def init (sender ladle_ : Address) (cauldron : Cauldron) : State where
  witch    := ⟨.init sender, ladle_, fun _ => ⟨0, 0⟩, fun _ => ⟨0, 0⟩, fun _ => ⟨0, 0, 0, 0⟩⟩
  cauldron := cauldron

namespace selector

def point  : Bytes4 := 0x1295bd08
def setIlk : Bytes4 := 0x0f078e52

end selector

-- price = (ink / art) * (p + (1 - p) * min(duration, elapsed) / duration), rounded up
def inkPrice (balances : DataTypes.Balances) (initialOffer_ duration_ elapsed : ℕ) : Call ℕ := do
  let term1 ← wdivup balances.ink balances.art
  let dividend2 := if duration_ < elapsed then duration_ else elapsed
  let divisor2 := duration_
  let rest ← Uint.diff WAD initialOffer_
  let ratio ← wdivup dividend2 divisor2
  let growth ← wmulup rest ratio
  let term2 ← Uint.cast 256 (initialOffer_ + growth)
  wmulup term1 term2

-- The amount `value * 10 ** dec`, by which line and dust are given.
def scaled (value : ℕ) (dec : Uint 8) : Call ℕ := do
  let factor ← Uint.cast 256 (10 ^ (dec : ℕ))
  let amount ← Uint.cast 256 (value * factor)
  return amount

def settle (ctx : Context) (ladle user : Address) (ilkId baseId : Bytes6) (ink art : Uint 128) :
    Call Unit := do
  let _ ← (if ink ≠ 0 then do
      let ilkJoin := ctx.joins ladle ilkId
      Call.require (ilkJoin ≠ 0) "Join not found"
      ctx.exit ilkJoin user ink
    else
      return ())
  (if art ≠ 0 then do
    let baseJoin := ctx.joins ladle baseId
    Call.require (baseJoin ≠ 0) "Join not found"
    ctx.join baseJoin user art
  else
    return ())

def point (s : State) (ctx : Context) (param : String) (value : Address) : Call State := do
  s.witch.roles.auth selector.point ctx.sender
  Call.require (param = "ladle") "Unrecognized parameter"
  return { s with witch.ladle := value }

def setIlk (s : State) (ctx : Context) (ilkId : Bytes6) (duration : Uint 32)
    (initialOffer : Uint 64) (line : Uint 96) (dust : Uint 24) (dec : Uint 8) : Call State := do
  s.witch.roles.auth selector.setIlk ctx.sender
  Call.require ((initialOffer : ℕ) ≤ WAD) "Only at or under 100%"
  return { s with
    witch.ilks   := Function.update s.witch.ilks ilkId { duration, initialOffer }
    witch.limits := Function.update s.witch.limits ilkId
      { line, dust, dec, sum := (s.witch.limits ilkId).sum }
  }

def auction (this : Address) (s : State) (ctx : Context) (vaultId : Bytes12) : Call State := do
  Call.require ((s.witch.auctions vaultId).start = 0) "Vault already under auction"
  Call.require (ctx.level vaultId < 0) "Not undercollateralized"
  let vault_ := s.cauldron.vaults vaultId
  let balances_ := s.cauldron.balances vaultId
  let limits_ := s.witch.limits vault_.ilkId
  let sum ← Uint.add limits_.sum balances_.ink
  let max ← scaled limits_.line limits_.dec
  Call.require ((sum : ℕ) ≤ max) "Collateral limit reached"
  let start ← Uint.cast 32 ctx.block.timestamp
  return {
    witch := { s.witch with
      limits   := Function.update s.witch.limits vault_.ilkId { limits_ with sum }
      auctions := Function.update s.witch.auctions vaultId { owner := vault_.owner, start }
    }
    cauldron := s.cauldron.give vaultId this
  }

-- Unless all of the debt is bought, enough collateral has to be left.
def leavesDust (balances_ : DataTypes.Balances) (limits_ : Limits) (art : Uint 128) (ink : ℕ) :
    Call Unit :=
  if art = balances_.art then
    return ()
  else do
    let left ← Uint.diff balances_.ink ink
    let dust ← scaled limits_.dust limits_.dec
    Call.require (dust ≤ left) "Leaves dust"

-- Pays out collateral which has been under auction.
def release (s : State) (ilkId : Bytes6) (ink : Uint 128) : Call State := do
  let sum ← Uint.sub (s.witch.limits ilkId).sum ink
  return { s with
    witch.limits := Function.update s.witch.limits ilkId { s.witch.limits ilkId with sum }
  }

-- Returns a vault to its former owner.
def close (s : State) (vaultId : Bytes12) (auction_ : Auction) : State where
  witch    := { s.witch with auctions := Function.update s.witch.auctions vaultId ⟨0, 0⟩ }
  cauldron := s.cauldron.give vaultId auction_.owner

def buy (s : State) (ctx : Context) (vaultId : Bytes12) (base min : Uint 128) :
    Call (State × ℕ) := do
  Call.require (0 < (s.witch.auctions vaultId).start) "Vault not under auction"
  let vault_ := s.cauldron.vaults vaultId
  let series_ := ctx.series vault_.seriesId
  let balances_ := s.cauldron.balances vaultId
  Call.require (0 < balances_.art) "Nothing to buy"
  let auction_ := s.witch.auctions vaultId
  let ilk_ := s.witch.ilks vault_.ilkId
  let limits_ := s.witch.limits vault_.ilkId
  let art ← ctx.debtFromBase vault_.seriesId base
  -- The timestamp is truncated, so auctions malfunction from 2106 on.
  let elapsed ← Uint.sub (Uint.truncate 32 ctx.block.timestamp) auction_.start
  let price ← inkPrice balances_ ilk_.initialOffer ilk_.duration elapsed
  let ink ← wmul art price
  Call.require (min ≤ ink) "Not enough bought"
  leavesDust balances_ limits_ art ink
  let ink ← Uint.cast 128 ink
  let s ← release s vault_.ilkId ink
  ctx.slurp vaultId ink art
  let cauldron ← s.cauldron.slurp vaultId ink art
  settle ctx s.witch.ladle ctx.sender vault_.ilkId series_.baseId ink base
  let left ← Uint.diff balances_.art art
  return (if left = 0 then close ⟨s.witch, cauldron⟩ vaultId auction_ else ⟨s.witch, cauldron⟩, ink)

def payAll (s : State) (ctx : Context) (vaultId : Bytes12) (min : Uint 128) :
    Call (State × ℕ) := do
  Call.require (0 < (s.witch.auctions vaultId).start) "Vault not under auction"
  let vault_ := s.cauldron.vaults vaultId
  let series_ := ctx.series vault_.seriesId
  let balances_ := s.cauldron.balances vaultId
  let auction_ := s.witch.auctions vaultId
  let ilk_ := s.witch.ilks vault_.ilkId
  Call.require (0 < balances_.art) "Nothing to buy"
  let elapsed ← Uint.sub (Uint.truncate 32 ctx.block.timestamp) auction_.start
  let price ← inkPrice balances_ ilk_.initialOffer ilk_.duration elapsed
  let ink ← wmul balances_.art price
  Call.require (min ≤ ink) "Not enough bought"
  -- The price is rounded up, so the amount is capped after `min` has been checked.
  let ink ← Uint.cast 128 (if balances_.ink < ink then balances_.ink else ink)
  let s ← release s vault_.ilkId ink
  ctx.slurp vaultId ink balances_.art
  let cauldron ← s.cauldron.slurp vaultId ink balances_.art
  let base ← ctx.debtToBase vault_.seriesId balances_.art
  settle ctx s.witch.ladle ctx.sender vault_.ilkId series_.baseId ink base
  return (close ⟨s.witch, cauldron⟩ vaultId auction_, ink)

inductive Action
  | point (param : String) (value : Address)
  | setIlk (ilkId : Bytes6) (duration : Uint 32) (initialOffer : Uint 64) (line : Uint 96)
      (dust : Uint 24) (dec : Uint 8)
  | auction (vaultId : Bytes12)
  | buy (vaultId : Bytes12) (base min : Uint 128)
  | payAll (vaultId : Bytes12) (min : Uint 128)

def exec (this : Address) (s : State) (ctx : Context) : Action → Call State
  | .point param value => point s ctx param value
  | .setIlk ilkId duration initialOffer line dust dec =>
    setIlk s ctx ilkId duration initialOffer line dust dec
  | .auction vaultId         => auction this s ctx vaultId
  | .buy vaultId base min    => Prod.fst <$> buy s ctx vaultId base min
  | .payAll vaultId min      => Prod.fst <$> payAll s ctx vaultId min

end OldWitch
