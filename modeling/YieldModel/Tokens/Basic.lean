import YieldModel.Objects.Basic

-- The tokens which bring their own accounting: Dai and MKR.

abbrev Bytes := List UInt8

-- The operations of the virtual machine which are used to check signatures.
structure Evm where
  keccak256 : Bytes → Bytes32
  ecrecover : Bytes32 → Uint 8 → Bytes32 → Bytes32 → Address

namespace Evm

-- A word of 32 bytes, with its most significant byte first.
def word (n : ℕ) : Bytes :=
  (List.range 32).map fun i => UInt8.ofNat (n / 256 ^ (31 - i))

def encode (words : List ℕ) : Bytes :=
  words.flatMap word

def bytes (s : String) : Bytes :=
  s.toUTF8.toList

end Evm

structure DaiMock where
  wards            : Address → Uint 256
  totalSupply      : Uint 256
  balanceOf        : Address → Uint 256
  allowance        : Address → Address → Uint 256
  nonces           : Address → Uint 256
  DOMAIN_SEPARATOR : Bytes32

namespace DaiMock

def PERMIT_TYPEHASH : Bytes32 :=
  0xea2aa0a1be11a07ed86d755c93467f4f82362b452371d1ba94d1715123511acb

-- The state after construction at `this` by `sender`.
def init (evm : Evm) (this sender : Address) (chainId_ : Uint 256) : DaiMock where
  wards       := Function.update (fun _ => 0) sender 1
  totalSupply := 0
  balanceOf _ := 0
  allowance _ _ := 0
  nonces _    := 0
  DOMAIN_SEPARATOR := evm.keccak256 <| Evm.encode [
    evm.keccak256 <| Evm.bytes
      "EIP712Domain(string name,string version,uint256 chainId,address verifyingContract)",
    evm.keccak256 <| Evm.bytes "Dai Stablecoin Mock",
    evm.keccak256 <| Evm.bytes "1",
    chainId_,
    this ]

def auth (s : DaiMock) (sender : Address) : Call Unit :=
  Call.require (s.wards sender = 1) "Dai/not-authorized"

def rely (s : DaiMock) (sender guy : Address) : Call DaiMock := do
  s.auth sender
  return { s with wards := Function.update s.wards guy 1 }

def deny (s : DaiMock) (sender guy : Address) : Call DaiMock := do
  s.auth sender
  return { s with wards := Function.update s.wards guy 0 }

-- The operations are checked twice, by the compiler and by the code.

def add (x y : Uint 256) : Call (Uint 256) := do
  let z ← Uint.add x y
  Call.require (x ≤ z) ""
  return z

def sub (x y : Uint 256) : Call (Uint 256) := do
  let z ← Uint.sub x y
  Call.require (z ≤ x) ""
  return z

def setAllowance (s : DaiMock) (owner spender : Address) (wad : Uint 256) : DaiMock :=
  { s with allowance :=
      Function.update s.allowance owner (Function.update (s.allowance owner) spender wad) }

-- What `transferFrom` and `burn` do about the allowance of the sender.
def useAllowance (s : DaiMock) (sender src : Address) (wad : Uint 256) : Call DaiMock :=
  if src ≠ sender ∧ s.allowance src sender ≠ Uint.max 256 then do
    Call.require (wad ≤ s.allowance src sender) "Dai/insufficient-allowance"
    let allowed ← sub (s.allowance src sender) wad
    return s.setAllowance src sender allowed
  else
    return s

def transferFrom (s : DaiMock) (sender src dst : Address) (wad : Uint 256) : Call DaiMock := do
  Call.require (wad ≤ s.balanceOf src) "Dai/insufficient-balance"
  let s ← s.useAllowance sender src wad
  let srcBalance ← sub (s.balanceOf src) wad
  let balanceOf := Function.update s.balanceOf src srcBalance
  let dstBalance ← add (balanceOf dst) wad
  return { s with balanceOf := Function.update balanceOf dst dstBalance }

def transfer (s : DaiMock) (sender dst : Address) (wad : Uint 256) : Call DaiMock :=
  s.transferFrom sender sender dst wad

def mint (s : DaiMock) (sender usr : Address) (wad : Uint 256) : Call DaiMock := do
  s.auth sender
  let balance ← add (s.balanceOf usr) wad
  let totalSupply ← add s.totalSupply wad
  return { s with balanceOf := Function.update s.balanceOf usr balance, totalSupply }

def burn (s : DaiMock) (sender usr : Address) (wad : Uint 256) : Call DaiMock := do
  Call.require (wad ≤ s.balanceOf usr) "Dai/insufficient-balance"
  let s ← s.useAllowance sender usr wad
  let balance ← sub (s.balanceOf usr) wad
  let totalSupply ← sub s.totalSupply wad
  return { s with balanceOf := Function.update s.balanceOf usr balance, totalSupply }

def approve (s : DaiMock) (sender usr : Address) (wad : Uint 256) : DaiMock :=
  s.setAllowance sender usr wad

def push (s : DaiMock) (sender usr : Address) (wad : Uint 256) : Call DaiMock :=
  s.transferFrom sender sender usr wad

def pull (s : DaiMock) (sender usr : Address) (wad : Uint 256) : Call DaiMock :=
  s.transferFrom sender usr sender wad

def move (s : DaiMock) (sender src dst : Address) (wad : Uint 256) : Call DaiMock :=
  s.transferFrom sender src dst wad

structure Permit where
  holder  : Address
  spender : Address
  nonce   : Uint 256
  expiry  : Uint 256
  allowed : Bool

-- What the holder lets the spender spend.
def Permit.wad (p : Permit) : Uint 256 :=
  if p.allowed then Uint.max 256 else 0

-- The message which the holder signs.
def digest (evm : Evm) (s : DaiMock) (p : Permit) : Bytes32 :=
  evm.keccak256 <| [0x19, 0x01] ++ Evm.word s.DOMAIN_SEPARATOR ++ Evm.word (evm.keccak256 <|
    Evm.encode [PERMIT_TYPEHASH, p.holder, p.spender, p.nonce, p.expiry, p.allowed.toNat])

def permit (evm : Evm) (b : Block) (s : DaiMock) (p : Permit) (v : Uint 8) (r s' : Bytes32) :
    Call DaiMock := do
  Call.require (p.holder ≠ 0) "Dai/invalid-address-0"
  Call.require (p.holder = evm.ecrecover (s.digest evm p) v r s') "Dai/invalid-permit"
  Call.require (p.expiry = 0 ∨ b.timestamp ≤ p.expiry) "Dai/permit-expired"
  let nonce ← Uint.add (s.nonces p.holder) 1
  Call.require (p.nonce = s.nonces p.holder) "Dai/invalid-nonce"
  let s := { s with nonces := Function.update s.nonces p.holder nonce }
  return s.setAllowance p.holder p.spender p.wad

inductive Action
  | rely (guy : Address)
  | deny (guy : Address)
  | transfer (dst : Address) (wad : Uint 256)
  | transferFrom (src dst : Address) (wad : Uint 256)
  | mint (usr : Address) (wad : Uint 256)
  | burn (usr : Address) (wad : Uint 256)
  | approve (usr : Address) (wad : Uint 256)
  | push (usr : Address) (wad : Uint 256)
  | pull (usr : Address) (wad : Uint 256)
  | move (src dst : Address) (wad : Uint 256)
  | permit (p : Permit) (v : Uint 8) (r s : Bytes32)

structure Message where
  sender : Address
  block  : Block
  action : Action

def exec (evm : Evm) (s : DaiMock) (m : Message) : Call DaiMock :=
  match m.action with
  | .rely guy                 => s.rely m.sender guy
  | .deny guy                 => s.deny m.sender guy
  | .transfer dst wad         => s.transfer m.sender dst wad
  | .transferFrom src dst wad => s.transferFrom m.sender src dst wad
  | .mint usr wad             => s.mint m.sender usr wad
  | .burn usr wad             => s.burn m.sender usr wad
  | .approve usr wad          => return s.approve m.sender usr wad
  | .push usr wad             => s.push m.sender usr wad
  | .pull usr wad             => s.pull m.sender usr wad
  | .move src dst wad         => s.move m.sender src dst wad
  | .permit p v r s'          => s.permit evm m.block p v r s'

-- The calls which do not revert, one after the other.
def run (evm : Evm) (s : DaiMock) (ms : List Message) : Call DaiMock :=
  ms.foldlM (exec evm) s

end DaiMock

structure MKRMock where
  _totalSupply : Uint 256
  _balanceOf   : Address → Uint 256
  _allowance   : Address → Address → Uint 256

namespace MKRMock

def init : MKRMock where
  _totalSupply   := 0
  _balanceOf _   := 0
  _allowance _ _ := 0

def _mint (s : MKRMock) (dst : Address) (wad : Uint 256) : Call MKRMock := do
  let balance ← Uint.add (s._balanceOf dst) wad
  let _totalSupply ← Uint.add s._totalSupply wad
  return { s with _balanceOf := Function.update s._balanceOf dst balance, _totalSupply }

-- Anybody may mint.
def mint (s : MKRMock) (dst : Address) (amount : Uint 256) : Call MKRMock :=
  s._mint dst amount

def _setAllowance (s : MKRMock) (owner spender : Address) (wad : Uint 256) : MKRMock :=
  { s with _allowance :=
      Function.update s._allowance owner (Function.update (s._allowance owner) spender wad) }

-- The subtraction is unchecked.
def _transfer (s : MKRMock) (src dst : Address) (wad : Uint 256) : Call MKRMock := do
  Call.require (wad ≤ s._balanceOf src) "ERC20: Insufficient balance"
  let balanceOf := Function.update s._balanceOf src (s._balanceOf src - wad)
  let balance ← Uint.add (balanceOf dst) wad
  return { s with _balanceOf := Function.update balanceOf dst balance }

def _decreaseAllowance (s : MKRMock) (sender src : Address) (wad : Uint 256) : Call MKRMock :=
  let allowed := s._allowance src sender
  if src ≠ sender ∧ allowed ≠ Uint.max 256 then do
    Call.require (wad ≤ allowed) "ERC20: Insufficient approval"
    return s._setAllowance src sender (allowed - wad)
  else
    return s

def approve (s : MKRMock) (sender spender : Address) (wad : Uint 256) : MKRMock :=
  s._setAllowance sender spender wad

def transfer (s : MKRMock) (sender dst : Address) (wad : Uint 256) : Call MKRMock :=
  s._transfer sender dst wad

def transferFrom (s : MKRMock) (sender src dst : Address) (wad : Uint 256) : Call MKRMock := do
  let s ← s._decreaseAllowance sender src wad
  s._transfer src dst wad

inductive Action
  | mint (dst : Address) (amount : Uint 256)
  | approve (spender : Address) (wad : Uint 256)
  | transfer (dst : Address) (wad : Uint 256)
  | transferFrom (src dst : Address) (wad : Uint 256)

structure Message where
  sender : Address
  action : Action

def exec (s : MKRMock) (m : Message) : Call MKRMock :=
  match m.action with
  | .mint dst amount          => s.mint dst amount
  | .approve spender wad      => return s.approve m.sender spender wad
  | .transfer dst wad         => s.transfer m.sender dst wad
  | .transferFrom src dst wad => s.transferFrom m.sender src dst wad

def run (s : MKRMock) (ms : List Message) : Call MKRMock :=
  ms.foldlM exec s

end MKRMock
