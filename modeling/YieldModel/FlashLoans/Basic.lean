import YieldModel.Lib.Loans
import YieldModel.Objects.AccessControl

namespace FlashLoans

-- What is looked up in pools, fyTokens, tokens, Joins, strategies and the Ladle. These are view
-- functions, so nothing can change while they are called.
structure Views (ω : Type) where
  balanceOf      : ω → (token account : Address) → Call (Uint 256)
  base           : ω → (pool : Address) → Call Address
  fyToken        : ω → (pool : Address) → Call Address
  buyBasePreview : ω → (pool : Address) → Uint 128 → Call (Uint 128)
  join           : ω → (fyToken : Address) → Call Address
  underlyingId   : ω → (fyToken : Address) → Call Bytes6
  asset          : ω → (join : Address) → Call Address
  pool           : ω → (strategy : Address) → Call Address
  nextPool       : ω → (strategy : Address) → Call Address
  baseId         : ω → (strategy : Address) → Call Bytes6
  joins          : ω → (ladle : Address) → Bytes6 → Call Address
  pools          : ω → (ladle : Address) → Bytes6 → Call Address

inductive Request (Bytes : Type)
  | flashLoan (lender receiver token : Address) (amount : Uint 256) (data : Bytes)
  | approve (token spender : Address) (amount : Uint 256)
  | safeApprove (token spender : Address) (amount : Uint 256)
  | transfer (token to_ : Address) (amount : Uint 256)
  | safeTransfer (token to_ : Address) (amount : Uint 256)
  | mintWithUnderlying (fyToken to_ : Address) (amount : Uint 256)
  | mintFYToken (fyToken to_ : Address) (amount : Uint 256)
  | mint (pool to_ remainder : Address) (minRatio maxRatio : Uint 256)
  | sellFYToken (pool to_ : Address) (min : Uint 128)
  | buyBase (pool to_ : Address) (tokenOut max : Uint 128)
  | endPool (strategy : Address)
  | startPool (strategy : Address) (minRatio maxRatio : Uint 256)
  deriving DecidableEq

variable {Bytes : Type}

def Request.target : Request Bytes → Address
  | .flashLoan a ..          => a
  | .approve a ..            => a
  | .safeApprove a ..        => a
  | .transfer a ..           => a
  | .safeTransfer a ..       => a
  | .mintWithUnderlying a .. => a
  | .mintFYToken a ..        => a
  | .mint a ..               => a
  | .sellFYToken a ..        => a
  | .buyBase a ..            => a
  | .endPool a               => a
  | .startPool a ..          => a

-- The allowance over a token which a request gives, if it is successful.
def Request.spender : Request Bytes → Option Address
  | .approve _ spender _     => some spender
  | .safeApprove _ spender _ => some spender
  | _                        => none

-- A request is made by `onFlashLoan`, which has been called by `sender`, or by another function.
inductive Msg (Bytes : Type)
  | own (r : Request Bytes)
  | callback (sender : Address) (r : Request Bytes)
  deriving DecidableEq

def Msg.request : Msg Bytes → Request Bytes
  | .own r        => r
  | .callback _ r => r

-- The account from which a loan is taken while the request is waiting.
def Msg.lender : Msg Bytes → Option Address
  | .own (.flashLoan lender ..) => some lender
  | _                           => none

-- The contracts around a borrower: how a lender pays out a loan for a fee and takes it back, and what
-- all other requests do.
structure Env (ω : Type) (Bytes : Type) where
  lend    : ω → (receiver token : Address) → (amount : Uint 256) → Call (Uint 256 × ω)
  repay   : ω → (receiver token : Address) → (amount fee : Uint 256) → Call ω
  perform : ω → (caller : Address) → Request Bytes → Call ω

-- The constant keccak256("ERC3156FlashBorrower.onFlashLoan").
def CALLBACK_SUCCESS : Bytes32 :=
  0x439148f0bbc682ca079e46d6e2c2f0c1e3b820f1a291b069d8882abf8cf18dd9

-- The conversion of a uint128 to a uint256.
def toUint256 (n : Uint 128) : Uint 256 :=
  ⟨n, n.isLt.trans (by decide)⟩

end FlashLoans
