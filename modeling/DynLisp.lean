import DynLisp.Error
import DynLisp.Eval.Argument
import DynLisp.Eval.Basic
import DynLisp.Eval.Builtin
import DynLisp.Eval.Definition
import DynLisp.Eval.Evaluate
import DynLisp.Eval.Lambda
import DynLisp.Eval.SpecialForm
import DynLisp.Number.Arithmetic
import DynLisp.Number.Basic
import DynLisp.Number.Bits
import DynLisp.Number.Decimal
import DynLisp.Number.Numeral
import DynLisp.Number.Rank
import DynLisp.Number.Summation
import DynLisp.Number.Text
import DynLisp.Prelude
import DynLisp.Proofs.Eval.Effect
import DynLisp.Proofs.Scope.Lookup
import DynLisp.Reader.Atom
import DynLisp.Reader.Form
import DynLisp.Reader.Token
import DynLisp.Scope.Bindings
import DynLisp.Scope.Forest
import DynLisp.Scope.Inspect
import DynLisp.Session
import DynLisp.Settings.Basic
import DynLisp.Settings.FileTree
import DynLisp.Settings.Path
import DynLisp.Text.Blank
import DynLisp.Text.DecimalDigit
import DynLisp.Text.Escape
import DynLisp.Text.Integer
import DynLisp.Text.Printable
import DynLisp.Text.Quoted
import DynLisp.Text.Template
import DynLisp.Value.Basic
import DynLisp.Value.Builtin
import DynLisp.Value.Display
import DynLisp.Value.Inspect
import DynLisp.Proofs.Eval.Traversal
import DynLisp.Proofs.Eval.Footprint
import DynLisp.Proofs.Eval.Agreement
import DynLisp.Proofs.Eval.Isolation
import DynLisp.Proofs.Eval.Visible
import DynLisp.Proofs.Number.Grammar
import DynLisp.Proofs.Number.ReadBack
import DynLisp.Proofs.Reader.Grammar
import DynLisp.Proofs.Reader.Lexeme
import DynLisp.Proofs.Reader.ReadBack
import DynLisp.Proofs.Reader.Layout
import DynLisp.Proofs.Reader.Sequence
import DynLisp.Proofs.Scope.Contents
import DynLisp.Proofs.Value.Part
import DynLisp.Proofs.Eval.ClosedWorld
import DynLisp.Proofs.Eval.Limit
import DynLisp.Proofs.Session.Reached
import DynLisp.Proofs.Session.SendBack
import DynLisp.Proofs.Eval.Pairing
import DynLisp.Proofs.Eval.Unread
import DynLisp.Proofs.Eval.Output
import DynLisp.Proofs.Reader.Seam
import DynLisp.Proofs.Session.Texts
import DynLisp.Proofs.Number.Whole
import DynLisp.Proofs.Checked.Operation
import DynLisp.Proofs.Checked.Escape
import DynLisp.Proofs.Checked.Atom
import DynLisp.Proofs.Checked.Exit
import DynLisp.Proofs.Checked.Evaluate
import DynLisp.Proofs.Session.Outcome
import DynLisp.Proofs.Session.StrayPair
import DynLisp.Proofs.Reader.Reprint
import DynLisp.Proofs.Session.Rebinding
import DynLisp.Proofs.Scope.Growth
import DynLisp.Proofs.Text.Grammar
import DynLisp.Proofs.Reader.Closing
import DynLisp.Proofs.Session.Deeds
import DynLisp.Proofs.Reader.Iteration
import DynLisp.Proofs.Scope.Record
import DynLisp.Proofs.Session.History
import DynLisp.Proofs.Eval.Calls
import DynLisp.Proofs.Text.Template
import DynLisp.Proofs.Eval.Mapping
import DynLisp.Proofs.Eval.Folding
import DynLisp.Proofs.Session.Prelude
import DynLisp.Proofs.Eval.Quiet
import DynLisp.Proofs.Session.ListFunctions
import DynLisp.Proofs.Eval.Refusal
import DynLisp.Proofs.Number.Order
import DynLisp.Proofs.Eval.Comparison
import DynLisp.Proofs.Number.Nearest
import DynLisp.Proofs.Number.HalfAway
import DynLisp.Proofs.Eval.ExitStatus
import DynLisp.Proofs.Number.Summation
import DynLisp.Proofs.Number.LeftFold
import DynLisp.Proofs.Eval.LeftFold
import DynLisp.Proofs.Eval.NamedClosure
import DynLisp.Proofs.Scope.Collected
import DynLisp.Proofs.Session.Update
import DynLisp.Proofs.Reader.Quoted
import DynLisp.Proofs.Number.Transcription
import DynLisp.Proofs.Reader.Classification
import DynLisp.Proofs.Number.PairwiseSum
import DynLisp.Proofs.Eval.EveryArgument
