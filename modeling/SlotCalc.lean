import SlotCalc.Main
import SlotCalc.Proofs.Expr.Derivation
import SlotCalc.Proofs.Expr.Evaluation
import SlotCalc.Proofs.Expr.Scan
import SlotCalc.Proofs.Expr.Brackets
import SlotCalc.Proofs.Expr.Substitution
import SlotCalc.Proofs.Expr.Rules
import SlotCalc.Proofs.Expr.Rendering
import SlotCalc.Proofs.Session.Course
import SlotCalc.Proofs.Session.Rejection
import SlotCalc.Proofs.Decimal.Packing
import SlotCalc.Proofs.Decimal.Rounding
import SlotCalc.Proofs.Decimal.Nearest
import SlotCalc.Proofs.Decimal.Value
import SlotCalc.Proofs.Decimal.Neighbours
import SlotCalc.Proofs.Operator.Quotient
import SlotCalc.Proofs.Decimal.Shortest
import SlotCalc.Proofs.Decimal.Digits
import SlotCalc.Proofs.Decimal.Layout
import SlotCalc.Proofs.Decimal.ReadBack
import SlotCalc.Proofs.Store.Cap
import SlotCalc.Proofs.Store.Adding
import SlotCalc.Proofs.Text.Runs
import SlotCalc.Proofs.Text.Quoted
import SlotCalc.Proofs.Token.Language
import SlotCalc.Proofs.Token.RoundTrip
import SlotCalc.Proofs.Token.FirstTokens
import SlotCalc.Proofs.Session.Tracking
import SlotCalc.Proofs.Session.Shape
import SlotCalc.Proofs.Session.Cap
import SlotCalc.Proofs.Session.Display
import SlotCalc.Proofs.Options.Accepted
import SlotCalc.Proofs.Command.Lines
import SlotCalc.Proofs.Command.Dialogue
import SlotCalc.Proofs.Session.Leading
import SlotCalc.Proofs.Session.Answering
import SlotCalc.Proofs.Session.SlotNames
import SlotCalc.Proofs.Command.Log
import SlotCalc.Proofs.Command.Ending
import SlotCalc.Proofs.Command.LogLevel
import SlotCalc.Proofs.Session.Spacing
import SlotCalc.Proofs.Text.Caret
import SlotCalc.Proofs.Token.Excerpt
import SlotCalc.Proofs.Expr.FaultPlace
import SlotCalc.Proofs.Config.Document
import SlotCalc.Proofs.Session.Records
import SlotCalc.Proofs.Command.Audit
import SlotCalc.Proofs.Toml.Written
import SlotCalc.Proofs.Toml.Entries
import SlotCalc.Proofs.Toml.Causes
import SlotCalc.Proofs.Config.Written
import SlotCalc.Proofs.Config.Loading
import SlotCalc.Proofs.Session.Room
import SlotCalc.Proofs.Command.Settings
