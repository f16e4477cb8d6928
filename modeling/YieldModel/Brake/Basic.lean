import YieldModel.Objects.AccessControl

-- The roles which an account needs in order to call `signatures` of a contract.
structure Permission where
  contact    : Address
  signatures : List Bytes4
  deriving DecidableEq

-- How permissions are encoded to bytes, and how plans are hashed.
structure Abi (Bytes : Type) where
  empty  : Bytes
  encode : List Permission → Bytes
  decode : Bytes → Call (List Permission)
  hash   : Address → List Permission → Bytes32

def Abi.Decodes {Bytes : Type} (abi : Abi Bytes) : Prop :=
  ∀ permissions, abi.decode (abi.encode permissions) = .ok permissions

namespace OldEmergencyBrake

inductive PlanState
  | UNPLANNED
  | PLANNED
  | EXECUTED
  deriving DecidableEq

structure Plan (Bytes : Type) where
  state       : PlanState
  target      : Address
  permissions : Bytes

-- The plans, and the roles which are kept by all contracts, among them the brake itself.
structure State (Bytes : Type) where
  contacts : Address → AccessControl
  plans    : Bytes32 → Plan Bytes

namespace selector

def plan      : Bytes4 := 0xde8a0667
def cancel    : Bytes4 := 0xc4d252f5
def execute   : Bytes4 := 0xe751f271
def restore   : Bytes4 := 0x205e8d53
def terminate : Bytes4 := 0x87b1002a

end selector

variable {Bytes : Type}

def deleted (abi : Abi Bytes) : Plan Bytes :=
  ⟨.UNPLANNED, 0, abi.empty⟩

def init (abi : Abi Bytes) (this sender planner executor : Address)
    (contacts : Address → AccessControl) : State Bytes where
  contacts := Function.update contacts this
    ((((((AccessControl.init sender)._grantRole selector.plan planner)._grantRole
      selector.cancel planner)._grantRole selector.execute executor)._grantRole
      selector.restore planner)._grantRole selector.terminate planner)
  plans _  := deleted abi

def auth (this : Address) (s : State Bytes) (sig : Bytes4) (sender : Address) : Call Unit :=
  (s.contacts this).auth sig sender

def setPlan (s : State Bytes) (txHash : Bytes32) (plan : Plan Bytes) : State Bytes :=
  { s with plans := Function.update s.plans txHash plan }

-- Calls `f` for all signatures of all permissions, one after the other.
def forEach {α : Type} (permissions : List Permission) (f : α → Address → Bytes4 → Call α) (a : α) :
    Call α :=
  permissions.foldlM (fun a permission_ =>
    permission_.signatures.foldlM (fun a signature_ => f a permission_.contact signature_) a) a

-- Revoking a role which has not been granted does not revert, so this is checked first.
def revoke (this target : Address) (contacts : Address → AccessControl) (contact : Address)
    (signature_ : Bytes4) : Call (Address → AccessControl) := do
  Call.require ((contacts contact).hasRole signature_ target) "Permission not found"
  let c ← (contacts contact).revokeRole this signature_ target
  return Function.update contacts contact c

def grant (this target : Address) (contacts : Address → AccessControl) (contact : Address)
    (signature_ : Bytes4) : Call (Address → AccessControl) := do
  let c ← (contacts contact).grantRole this signature_ target
  return Function.update contacts contact c

def plan (abi : Abi Bytes) (this : Address) (s : State Bytes) (sender target : Address)
    (permissions : List Permission) : Call (State Bytes × Bytes32) := do
  auth this s selector.plan sender
  let txHash := abi.hash target permissions
  Call.require ((s.plans txHash).state = .UNPLANNED) "Emergency already planned for."
  -- Removing or granting ROOT permissions is out of bounds for EmergencyBrake
  forEach permissions (fun _ _ signature_ =>
    Call.require (signature_ ≠ AccessControl.ROOT) "Can't remove ROOT") ()
  return (setPlan s txHash ⟨.PLANNED, target, abi.encode permissions⟩, txHash)

def cancel (abi : Abi Bytes) (this : Address) (s : State Bytes) (sender : Address)
    (txHash : Bytes32) : Call (State Bytes) := do
  auth this s selector.cancel sender
  Call.require ((s.plans txHash).state = .PLANNED) "Emergency not planned for."
  return setPlan s txHash (deleted abi)

def execute (abi : Abi Bytes) (this : Address) (s : State Bytes) (sender : Address)
    (txHash : Bytes32) : Call (State Bytes) := do
  auth this s selector.execute sender
  let plan_ := s.plans txHash
  Call.require (plan_.state = .PLANNED) "Emergency not planned for."
  let s := setPlan s txHash { plan_ with state := .EXECUTED }
  let permissions_ ← abi.decode plan_.permissions
  let contacts ← forEach permissions_ (revoke this plan_.target) s.contacts
  return { s with contacts }

def restore (abi : Abi Bytes) (this : Address) (s : State Bytes) (sender : Address)
    (txHash : Bytes32) : Call (State Bytes) := do
  auth this s selector.restore sender
  let plan_ := s.plans txHash
  Call.require (plan_.state = .EXECUTED) "Emergency plan not executed."
  let s := setPlan s txHash { plan_ with state := .PLANNED }
  let permissions_ ← abi.decode plan_.permissions
  let contacts ← forEach permissions_ (grant this plan_.target) s.contacts
  return { s with contacts }

def terminate (abi : Abi Bytes) (this : Address) (s : State Bytes) (sender : Address)
    (txHash : Bytes32) : Call (State Bytes) := do
  auth this s selector.terminate sender
  Call.require ((s.plans txHash).state = .EXECUTED) "Emergency plan not executed."
  return setPlan s txHash (deleted abi)

inductive Action
  | plan (target : Address) (permissions : List Permission)
  | cancel (txHash : Bytes32)
  | execute (txHash : Bytes32)
  | restore (txHash : Bytes32)
  | terminate (txHash : Bytes32)

def exec (abi : Abi Bytes) (this : Address) (s : State Bytes) (sender : Address) :
    Action → Call (State Bytes)
  | .plan target permissions => Prod.fst <$> plan abi this s sender target permissions
  | .cancel txHash           => cancel abi this s sender txHash
  | .execute txHash          => execute abi this s sender txHash
  | .restore txHash          => restore abi this s sender txHash
  | .terminate txHash        => terminate abi this s sender txHash

end OldEmergencyBrake
