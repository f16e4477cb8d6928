import YieldModel.Fragments.Basic
import YieldModel.Lib.Overwrite

namespace Permissions

-- The roles of all contracts, by their addresses.
abbrev Hosts := Address → AccessControl

structure Role where
  host    : Address
  role    : Bytes4
  account : Address
  deriving DecidableEq

def held (hosts : Hosts) (r : Role) : Bool :=
  (hosts r.host).hasRole r.role r.account

-- The calls which a proposal makes. All that do not change roles or plans are `other`.
inductive Data
  | grantRole (role : Bytes4) (account : Address)
  | grantRoles (roles : List Bytes4) (account : Address)
  | revokeRole (role : Bytes4) (account : Address)
  | revokeRoles (roles : List Bytes4) (account : Address)
  | add (user : Address) (permissions : List Fragments.Permission)
  | remove (user : Address) (permissions : List Fragments.Permission)
  | other

structure Tx where
  target : Address
  data   : Data

abbrev Proposal := List Tx

-- The roles, and the plans of the cloak.
structure Chain (κ : Type) where
  hosts : Hosts
  cloak : κ

def Hosts.on (hosts : Hosts) (host : Address) (f : AccessControl → Call AccessControl) :
    Call Hosts := do
  let c ← f (hosts host)
  return Function.update hosts host c

-- What a call by the timelock does to the roles.
def Tx.onHosts (timelock : Address) (hosts : Hosts) (tx : Tx) : Call Hosts :=
  match tx.data with
  | .grantRole role account    => hosts.on tx.target (·.grantRole timelock role account)
  | .grantRoles roles account  => hosts.on tx.target (AccessControl.grantRoles timelock roles account)
  | .revokeRole role account   => hosts.on tx.target (·.revokeRole timelock role account)
  | .revokeRoles roles account => hosts.on tx.target (AccessControl.revokeRoles timelock roles account)
  | .add .. | .remove .. | .other => return hosts

def Tx.onCloak {κ : Type} (b : Fragments.EmergencyBrake κ) (timelock : Address) (s : κ) (tx : Tx) :
    Call κ :=
  match tx.data with
  | .add user permissions    => b.add s timelock user permissions
  | .remove user permissions => b.remove s timelock user permissions
  | _                        => return s

def Proposal.onHosts (timelock : Address) (hosts : Hosts) (p : Proposal) : Call Hosts :=
  p.foldlM (Tx.onHosts timelock) hosts

-- What the timelock does with a proposal. The calls which are `other` may revert, by `others`.
def Tx.execute {κ : Type} (b : Fragments.EmergencyBrake κ) (others : Tx → Call Unit)
    (timelock : Address) (c : Chain κ) (tx : Tx) : Call (Chain κ) := do
  if let .other := tx.data then others tx
  let hosts ← tx.onHosts timelock c.hosts
  let cloak ← tx.onCloak b timelock c.cloak
  return { hosts, cloak }

def Proposal.execute {κ : Type} (b : Fragments.EmergencyBrake κ) (others : Tx → Call Unit)
    (timelock : Address) (c : Chain κ) (p : Proposal) : Call (Chain κ) :=
  p.foldlM (Tx.execute b others timelock) c

-- The roles which a call gives and takes, in this order.
def Tx.writes (tx : Tx) : List (Role × Bool) :=
  match tx.data with
  | .grantRole role account    => [(⟨tx.target, role, account⟩, true)]
  | .grantRoles roles account  => roles.map (⟨tx.target, ·, account⟩, true)
  | .revokeRole role account   => [(⟨tx.target, role, account⟩, false)]
  | .revokeRoles roles account => roles.map (⟨tx.target, ·, account⟩, false)
  | .add .. | .remove .. | .other => []

def Proposal.writes (p : Proposal) : List (Role × Bool) :=
  p.flatMap Tx.writes

end Permissions
