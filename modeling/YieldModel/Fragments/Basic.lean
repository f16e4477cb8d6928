import YieldModel.Governance.Basic
import YieldModel.Join.Basic

namespace Fragments

structure Permission where
  host      : Address
  signature : Bytes4
  deriving DecidableEq

-- The second version of the EmergencyBrake is not part of the repository. `κ` is its state.
structure EmergencyBrake (κ : Type) where
  lists  : κ → Address → Permission → Prop
  add    : κ → Address → Address → List Permission → Call κ
  remove : κ → Address → Address → List Permission → Call κ

-- The plan of a user gains or loses exactly the permissions which are given.
structure EmergencyBrake.Lawful {κ : Type} (b : EmergencyBrake κ) : Prop where
  add    : ∀ s sender user permissions s', b.add s sender user permissions = .ok s' →
           ∀ u p, b.lists s' u p ↔ b.lists s u p ∨ (u = user ∧ p ∈ permissions)
  remove : ∀ s sender user permissions s', b.remove s sender user permissions = .ok s' →
           ∀ u p, b.lists s' u p ↔ b.lists s u p ∧ ¬(u = user ∧ p ∈ permissions)

-- The hosts of the roles which are orchestrated.
inductive Contract
  | join (j : Join)
  | fyToken (roles : AccessControl)
  | other

def Contract.roles : Contract → Option AccessControl
  | .join j        => some j.roles
  | .fyToken roles => some roles
  | .other         => none

def Contract.setRoles (roles : AccessControl) : Contract → Contract
  | .join j    => .join { j with roles }
  | .fyToken _ => .fyToken roles
  | .other     => .other

-- `ω` is the state of all other contracts, among them the Ladle and the Witch.
structure Chain (κ ω : Type) where
  contracts : Address → Contract
  tokens    : Address → ERC20
  cloak     : κ
  rest      : ω

inductive Data
  | grantRole (role : Bytes4) (account : Address)
  | grantRoles (roles : List Bytes4) (account : Address)
  | revokeRoles (roles : List Bytes4) (account : Address)
  | exit (user : Address) (amount : Uint 128)
  | join (user : Address) (amount : Uint 128)
  | add (user : Address) (permissions : List Permission)
  | remove (user : Address) (permissions : List Permission)
  | addJoin (assetId : Bytes6) (join : Address)
  | setLineAndLimit (ilkId baseId : Bytes6) (duration : Uint 32)
      (vaultProportion collateralProportion : Uint 64) (max : Uint 128)

structure Tx where
  target : Address
  data   : Data

abbrev Proposal := List Tx

-- The addresses of the protocol. Proposals are executed by the timelock.
structure System where
  timelock : Address
  ladle    : Address
  witch    : Address
  cloak    : Address
  ladle_ne : timelock ≠ ladle
  witch_ne : timelock ≠ witch

-- The contracts which are not part of the repository.
structure Externals (κ ω : Type) where
  cloak  : EmergencyBrake κ
  joins  : ω → Bytes6 → Address
  effect : ω → Tx → Call ω

namespace selector

def join : Bytes4 := Join.selector.join
def exit : Bytes4 := Join.selector.exit
def mint : Bytes4 := 0x40c10f19
def burn : Bytes4 := 0x9dc29fac

end selector

variable {κ ω : Type}

def Chain.onRoles (c : Chain κ ω) (host : Address)
    (f : AccessControl → Call AccessControl) : Call (Chain κ ω) :=
  match (c.contracts host).roles with
  | none       => .error "Transaction reverted silently"
  | some roles => do
    let roles ← f roles
    return { c with
      contracts := Function.update c.contracts host ((c.contracts host).setRoles roles) }

def Chain.onJoin (c : Chain κ ω) (host : Address) (f : Join.State → Call (Join.State × Uint 128)) :
    Call (Chain κ ω) :=
  match c.contracts host with
  | .join join => do
    let (s, _) ← f { join, tokens := c.tokens }
    return { c with
      contracts := Function.update c.contracts host (.join s.join)
      tokens    := s.tokens
    }
  | _ => .error "Transaction reverted silently"

def execute (sys : System) (ext : Externals κ ω) (c : Chain κ ω) (tx : Tx) :
    Call (Chain κ ω) :=
  match tx.data with
  | .grantRole role account =>
    c.onRoles tx.target (·.grantRole sys.timelock role account)
  | .grantRoles roles account =>
    c.onRoles tx.target (AccessControl.grantRoles sys.timelock roles account)
  | .revokeRoles roles account =>
    c.onRoles tx.target (AccessControl.revokeRoles sys.timelock roles account)
  | .exit user amount =>
    c.onJoin tx.target (Join.exit tx.target · sys.timelock user amount)
  | .join user amount =>
    c.onJoin tx.target (Join.join tx.target · sys.timelock user amount)
  | .add user permissions => do
    let cloak ← ext.cloak.add c.cloak sys.timelock user permissions
    return { c with cloak }
  | .remove user permissions => do
    let cloak ← ext.cloak.remove c.cloak sys.timelock user permissions
    return { c with cloak }
  | .addJoin .. | .setLineAndLimit .. => do
    let rest ← ext.effect c.rest tx
    return { c with rest }

def executeAll (sys : System) (ext : Externals κ ω) (c : Chain κ ω) (proposal : Proposal) :
    Call (Chain κ ω) :=
  proposal.foldlM (execute sys ext) c

-- What a proposal is built from: the addresses, and the state of the chain at this time.

def Chain.hasRole (c : Chain κ ω) (host : Address) (role : Bytes4) (account : Address) :
    Call Bool :=
  match (c.contracts host).roles with
  | some roles => .ok (roles.hasRole role account)
  | none       => .error "call revert exception"

def Chain.storedBalance (c : Chain κ ω) (host : Address) : Call (Uint 256) :=
  match c.contracts host with
  | .join j => .ok j.storedBalance
  | _       => .error "call revert exception"

def addJoin (sys : System) (assetId : Bytes6) (join : Address) : Proposal :=
  [ -- Allow Ladle to join and exit on the asset Join
    ⟨join, .grantRoles [selector.join, selector.exit] sys.ladle⟩,
    -- Add ladle/fyToken orchestration to cloak
    ⟨sys.cloak, .add sys.ladle [⟨join, selector.join⟩, ⟨join, selector.exit⟩]⟩,
    -- Register join in Ladle
    ⟨sys.ladle, .addJoin assetId join⟩ ]

def removeJoin (sys : System) (ext : Externals κ ω) (c : Chain κ ω) (assetId : Bytes6) :
    Call Proposal := do
  let join := ext.joins c.rest assetId
  Call.require (join ≠ 0) s!"Join for {assetId} not found"
  return [
    -- Disallow Ladle to join and exit on the asset Join
    ⟨join, .revokeRoles [selector.join, selector.exit] sys.ladle⟩,
    -- Remove orchestration from cloak
    ⟨sys.cloak, .remove sys.ladle [⟨join, selector.join⟩, ⟨join, selector.exit⟩]⟩ ]

def replaceJoin (sys : System) (ext : Externals κ ω) (c : Chain κ ω) (assetId : Bytes6)
    (join : Address) : Call Proposal := do
  let proposal ← removeJoin sys ext c assetId
  return proposal ++ addJoin sys assetId join

def addFYToken (sys : System) (fyToken : Address) : Proposal :=
  [ ⟨fyToken, .grantRoles [selector.mint, selector.burn] sys.ladle⟩,
    ⟨sys.cloak, .add sys.ladle [⟨fyToken, selector.mint⟩, ⟨fyToken, selector.burn⟩]⟩ ]

def removeFYToken (sys : System) (fyToken : Address) : Proposal :=
  [ ⟨fyToken, .revokeRoles [selector.mint, selector.burn] sys.ladle⟩,
    ⟨sys.cloak, .remove sys.ladle [⟨fyToken, selector.mint⟩, ⟨fyToken, selector.burn⟩]⟩ ]

def addBaseToWitch (sys : System) (join : Address) : Proposal :=
  [ ⟨join, .grantRole selector.join sys.witch⟩,
    ⟨sys.cloak, .add sys.witch [⟨join, selector.join⟩]⟩ ]

def setLineAndLimit (sys : System) (p : Governance.AuctionLineAndLimit) : Proposal :=
  [⟨sys.witch, .setLineAndLimit p.ilkId p.baseId p.duration p.vaultProportion
    p.collateralProportion p.max⟩]

def addIlkToWitch (sys : System) (c : Chain κ ω) (ilk : Governance.Ilk) (join : Address) :
    Call Proposal :=
  match ilk.auctionLineAndLimit with
  | none   => .error "Cannot destructure property 'baseId' of 'undefined' as it is undefined."
  | some p => do
    let hasRole ← c.hasRole join selector.exit sys.witch
    return setLineAndLimit sys p ++
      if ¬hasRole then
        [ ⟨join, .grantRole selector.exit sys.witch⟩,
          ⟨sys.cloak, .add sys.witch [⟨join, selector.exit⟩]⟩ ]
      else
        []

def addFYTokenToWitch (sys : System) (fyToken : Address) : Proposal :=
  [ ⟨fyToken, .grantRoles [selector.burn] sys.witch⟩,
    ⟨sys.cloak, .add sys.witch [⟨fyToken, selector.burn⟩]⟩ ]

-- The part of a drain which is about one pair of Joins.
def drainJoin (sys : System) (oldJoin newJoin : Address) (storedBalance : Uint 128) : Proposal :=
  [ -- grant permissions
    ⟨oldJoin, .grantRoles [selector.exit] sys.timelock⟩,
    ⟨newJoin, .grantRoles [selector.join] sys.timelock⟩,
    -- exit all to new join
    ⟨oldJoin, .exit newJoin storedBalance⟩,
    -- join all on new join
    ⟨newJoin, .join oldJoin storedBalance⟩,
    -- isolate from ladle
    ⟨oldJoin, .revokeRoles [selector.join, selector.exit] sys.ladle⟩,
    -- revoke permissions
    ⟨oldJoin, .revokeRoles [selector.exit] sys.timelock⟩,
    ⟨newJoin, .revokeRoles [selector.join] sys.timelock⟩ ]

-- The amounts are read now, and encoded with 128 bits.
def drainJoinsFragment (sys : System) (c : Chain κ ω)
    (joinReplacements : List (Address × Address)) : Call Proposal :=
  joinReplacements.foldlM (fun proposal (oldJoin, newJoin) => do
    let storedBalance ← c.storedBalance oldJoin
    let storedBalance ← Uint.cast 128 storedBalance
    return proposal ++ drainJoin sys oldJoin newJoin storedBalance) []

-- The fragments which change what the Ladle and the Witch may do on Joins and fyTokens.
inductive Fragment
  | addJoin (assetId : Bytes6) (join : Address)
  | removeJoin (assetId : Bytes6)
  | replaceJoin (assetId : Bytes6) (join : Address)
  | addFYToken (fyToken : Address)
  | removeFYToken (fyToken : Address)
  | addBaseToWitch (join : Address)
  | addIlkToWitch (ilk : Governance.Ilk) (join : Address)
  | addFYTokenToWitch (fyToken : Address)
  | drainJoins (joinReplacements : List (Address × Address))

def build (sys : System) (ext : Externals κ ω) (c : Chain κ ω) : Fragment → Call Proposal
  | .addJoin assetId join        => .ok (addJoin sys assetId join)
  | .removeJoin assetId          => removeJoin sys ext c assetId
  | .replaceJoin assetId join    => replaceJoin sys ext c assetId join
  | .addFYToken fyToken          => .ok (addFYToken sys fyToken)
  | .removeFYToken fyToken       => .ok (removeFYToken sys fyToken)
  | .addBaseToWitch join         => .ok (addBaseToWitch sys join)
  | .addIlkToWitch ilk join      => addIlkToWitch sys c ilk join
  | .addFYTokenToWitch fyToken   => .ok (addFYTokenToWitch sys fyToken)
  | .drainJoins joinReplacements => drainJoinsFragment sys c joinReplacements

end Fragments
