import YieldModel.AddressFiles.Basic
import YieldModel.AddressFiles.RoundTrip
import YieldModel.AddressFiles.Writes
import YieldModel.Brake.Isolation
import YieldModel.Brake.Orchestration
import YieldModel.Brake.Reversal
import YieldModel.Convex.Basic
import YieldModel.Convex.Deposits
import YieldModel.Convex.Execution
import YieldModel.Convex.Integrals
import YieldModel.Convex.Solvency
import YieldModel.Convex.Steps
import YieldModel.FlashLiquidator.Callback
import YieldModel.FlashLiquidator.Entries
import YieldModel.FlashLiquidator.Sweep
import YieldModel.FlashLoans.Basic
import YieldModel.FlashLoans.Funding
import YieldModel.FlashLoans.OwnLoan
import YieldModel.FlashLoans.PoolRestorer
import YieldModel.FlashLoans.Restoring
import YieldModel.FlashLoans.Trader
import YieldModel.FlashLoans.Trades
import YieldModel.Fragments.Drain
import YieldModel.Fragments.InStep
import YieldModel.Governance.Deployment
import YieldModel.Governance.MakeIlk
import YieldModel.Governance.Proposals
import YieldModel.Join.Backing
import YieldModel.Lib.Accumulation
import YieldModel.Lib.Allowance
import YieldModel.Lib.Apportion
import YieldModel.Lib.CallTree
import YieldModel.Lib.Code
import YieldModel.Lib.Dividend
import YieldModel.Lib.Interruption
import YieldModel.Lib.Json
import YieldModel.Lib.JsonRoundTrip
import YieldModel.Lib.Loans
import YieldModel.Lib.OrderedMap
import YieldModel.Lib.Reentrancy
import YieldModel.Lib.Signed
import YieldModel.Lib.Utf16
import YieldModel.Lib.Yields
import YieldModel.Liquidator.Batching
import YieldModel.Liquidator.Bidding
import YieldModel.Liquidator.Coverage
import YieldModel.Liquidator.Debt
import YieldModel.Liquidator.Nonces
import YieldModel.Liquidator.Offer
import YieldModel.Liquidator.Persistence
import YieldModel.Liquidator.Ranges
import YieldModel.Liquidator.Whitelist
import YieldModel.Objects.Locking
import YieldModel.Permissions.Basic
import YieldModel.Permissions.Control
import YieldModel.Permissions.Fragments
import YieldModel.Permissions.Handover
import YieldModel.Permissions.Plans
import YieldModel.Permissions.Tables
import YieldModel.Permissions.Undo
import YieldModel.RestoreStrategies.Basic
import YieldModel.RestoreStrategies.Fairness
import YieldModel.Shifter.Basic
import YieldModel.Solvency.Basic
import YieldModel.Solvency.Measures
import YieldModel.Solvency.Raw
import YieldModel.Strategy.Dilution
import YieldModel.Strategy.Openness
import YieldModel.Strategy.Reserves
import YieldModel.Strategy.Split
import YieldModel.Tokens.Basic
import YieldModel.Tokens.Dai
import YieldModel.Tokens.Permits
import YieldModel.Wands.Basic
import YieldModel.Wands.Handover
import YieldModel.Witch.Accounting
import YieldModel.Witch.Closing
import YieldModel.Witch.Curve
import YieldModel.Witch.Owners
import YieldModel.Witch.Slippage
import YieldModel.Witch.Splitting
import YieldModel.Tokens.Mkr
import YieldModel.Solvency.Check
