import YieldModel.Lib.Apportion

-- The data of the proposal that gives the holders of two strategies the tokens of the strategies by
-- which these were replaced, in proportion to the balances of a snapshot.

namespace RestoreStrategies

-- A row of the snapshot. Its fields are text.
structure Row where
  account : String
  balance : String
  deriving DecidableEq

structure StrategyConfig where
  filePath             : String
  addr                 : String
  mintedStrategyTokens : ℕ
  deriving DecidableEq

structure Send where
  tokenAddr : String
  destAddr  : String
  amount    : ℤ
  deriving DecidableEq

-- How the script can end without a result. Nothing more happens after a promise that is not
-- resolved, so all there is to see is the message.
inductive Stop
  | thrown (error : String)
  | unresolved (message : String)
  deriving DecidableEq

abbrev Script := Except Stop

def attempt {α : Type} (x : Except String α) : Script α :=
  x.mapError .thrown

-- The configuration, the rows of the files, the chain, and how numbers are parsed.
structure Env where
  config       : String → Option StrategyConfig
  timelockAddr : String
  csv          : String → List Row
  balanceOf    : String → String → Except String ℕ
  decimals     : String → Except String ℕ
  parseUnits   : String → ℕ → Except String ℤ

def YSDAI6MJD : String := "0x1031FF000000"
def YSUSDC6MJD : String := "0x1032FF000000"

def greaterThanMinted : String := "Amount to be distributed is greater than the minted amount"
def notEnoughTokens : String := "Not enough tokens in the timelock"

-- The division of a `BigNumber`, which rounds towards zero.
def div (a b : ℤ) : Script ℤ :=
  if b = 0 then .error (.thrown "division-by-zero") else return a.tdiv b

variable (env : Env)

def totalAffectedBalance (decimals : ℕ) (rows : List Row) : Script ℤ :=
  rows.foldlM (fun totalAffectedBalance row => do
    let _balance ← attempt (env.parseUnits row.balance decimals)
    return totalAffectedBalance + _balance) 0

structure Dispersal where
  newStrategyBalances : List Send
  totalAmount         : ℤ
  deriving DecidableEq

def Dispersal.push (d : Dispersal) (send : Send) : Dispersal where
  newStrategyBalances := d.newStrategyBalances ++ [send]
  totalAmount         := d.totalAmount + send.amount

-- What the second pass over the file does for a row.
def disperse (c : StrategyConfig) (decimals : ℕ) (total : ℤ) (d : Dispersal) (row : Row) :
    Script Dispersal := do
  let _balance ← attempt (env.parseUnits row.balance decimals)
  if 0 < _balance then
    let adjustedBal ← div (c.mintedStrategyTokens * _balance) total
    return d.push ⟨c.addr, row.account, adjustedBal⟩
  else
    return d

-- Both passes over the rows of a file.
def dispersal (c : StrategyConfig) (decimals : ℕ) (rows : List Row) : Script Dispersal := do
  let total ← totalAffectedBalance env decimals rows
  rows.foldlM (disperse env c decimals total) ⟨[], 0⟩

-- What is done at the end of the second pass.
def finish (c : StrategyConfig) (timelockBal : ℕ) (d : Dispersal) : Script (List Send) :=
  if c.mintedStrategyTokens < d.totalAmount then .error (.unresolved greaterThanMinted)
  else if timelockBal < c.mintedStrategyTokens then .error (.unresolved notEnoughTokens)
  else return d.newStrategyBalances

def parse (strategyName : String) : Script (List Send) :=
  match env.config strategyName with
  | none   => .error (.thrown "TypeError: Cannot destructure property 'filePath'")
  | some c => do
    let timelockBal ← attempt (env.balanceOf c.addr env.timelockAddr)
    let decimals ← attempt (env.decimals c.addr)
    let d ← dispersal env c decimals (env.csv c.filePath)
    finish c timelockBal d

def sendData : Script (List Send) :=
  [YSDAI6MJD, YSUSDC6MJD].foldlM (fun totalSendData strat => do
    return totalSendData ++ (← parse env strat)) []

end RestoreStrategies
