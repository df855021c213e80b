import TradeRules.Files.Folder
import TradeRules.Main
import TradeRules.Proofs.Number.LongestDecimal
import TradeRules.Proofs.Expr.Token
import TradeRules.Proofs.Expr.Grammar
import TradeRules.Proofs.Expr.Soundness
import TradeRules.Proofs.Expr.Completeness
import TradeRules.Proofs.Number.Bits
import TradeRules.Proofs.Number.ReadBack
import TradeRules.Proofs.Expr.Nesting
import TradeRules.Proofs.Expr.Canonical
import TradeRules.Proofs.Batch.Grouping
import TradeRules.Proofs.Batch.Accounting
import TradeRules.Proofs.Rule.Firing
import TradeRules.Proofs.Rule.Question
import TradeRules.Proofs.Batch.Ledger
import TradeRules.Proofs.Batch.Fetch
import TradeRules.Proofs.Batch.Snapshot
import TradeRules.Proofs.Batch.Interleaving
import TradeRules.Proofs.Batch.Order
import TradeRules.Proofs.Number.Whole
import TradeRules.Proofs.Expr.Inventory
import TradeRules.Proofs.Rule.Reads
import TradeRules.Proofs.Rule.Window
import TradeRules.Proofs.Batch.Company
import TradeRules.Proofs.Indicator.WarmUp
import TradeRules.Proofs.Expr.Evaluation
import TradeRules.Proofs.Expr.Agreement
import TradeRules.Proofs.Expr.Kinds
import TradeRules.Proofs.Expr.MissingHistory
import TradeRules.Proofs.Batch.Sufficiency
import TradeRules.Proofs.Number.Rational
import TradeRules.Proofs.Indicator.Pointwise
import TradeRules.Proofs.Indicator.Means
import TradeRules.Proofs.Indicator.Oscillator
import TradeRules.Proofs.Indicator.Positions
import TradeRules.Proofs.Number.Sums
import TradeRules.Proofs.Indicator.Residue
import TradeRules.Proofs.Batch.AtHand
import TradeRules.Proofs.Number.Floor
import TradeRules.Proofs.Rule.Shares
import TradeRules.Proofs.Batch.Budget
import TradeRules.Proofs.Expr.FirstError
import TradeRules.Proofs.Expr.Inquiry
import TradeRules.Proofs.Settings.Reading
import TradeRules.Proofs.Settings.Validated
import TradeRules.Proofs.Number.FixedPlaces
import TradeRules.Proofs.Market.Stamp
import TradeRules.Proofs.Command.ReportLines
import TradeRules.Proofs.Command.Stages
import TradeRules.Proofs.Text.Encoding
import TradeRules.Proofs.Files.Rows
import TradeRules.Proofs.Files.Loading
import TradeRules.Proofs.Market.Sorting
import TradeRules.Proofs.Files.Newest
import TradeRules.Proofs.Command.Shown
import TradeRules.Proofs.Expr.Amount
import TradeRules.Proofs.Expr.Surrounding
import TradeRules.Proofs.Expr.ClosedVocabulary
import TradeRules.Proofs.Expr.Parentheses
import TradeRules.Proofs.Expr.Recased
import TradeRules.Proofs.Text.Lines
import TradeRules.Proofs.Expr.Places
import TradeRules.Proofs.Expr.Caret
import TradeRules.Proofs.Command.Wording
import TradeRules.Proofs.Command.Quoted
import TradeRules.Proofs.Command.Printed
import TradeRules.Proofs.Expr.Cursor
import TradeRules.Proofs.Expr.Descent
import TradeRules.Proofs.Expr.Steps
import TradeRules.Proofs.Expr.Passing
import TradeRules.Proofs.Expr.Offsets
import TradeRules.Proofs.Expr.Balance
import TradeRules.Proofs.Expr.Recursion
