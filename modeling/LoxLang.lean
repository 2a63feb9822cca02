import LoxLang.Main
import LoxLang.Proofs.Parsing.Basic
import LoxLang.Proofs.Parsing.Depth
import LoxLang.Proofs.Grammar.Reading
import LoxLang.Proofs.Parsing.ExpressionSound
import LoxLang.Proofs.Parsing.StatementSound
import LoxLang.Proofs.Parsing.ExpressionComplete
import LoxLang.Proofs.Parsing.StatementComplete
import LoxLang.Proofs.Grammar.Basic
import LoxLang.Proofs.Grammar.ReadingDerives
import LoxLang.Proofs.Grammar.DerivesReading
import LoxLang.Proofs.Grammar.Exact
import LoxLang.Proofs.Grammar.Printing
import LoxLang.Proofs.Grammar.Printed
import LoxLang.Proofs.Scope.Linked
import LoxLang.Proofs.Grammar.Formed
import LoxLang.Proofs.Token.Spelling
import LoxLang.Proofs.Scope.Walk
import LoxLang.Proofs.Scope.Resolution
import LoxLang.Proofs.Eval.Heap
import LoxLang.Proofs.Eval.Safe
import LoxLang.Proofs.Session.Basic
import LoxLang.Proofs.Session.Safe
import LoxLang.Proofs.Lexical.Interpreter
import LoxLang.Proofs.Lexical.Agree
import LoxLang.Proofs.Lexical.Declare
import LoxLang.Proofs.Lexical.Refinement
import LoxLang.Proofs.Grammar.Alike
import LoxLang.Proofs.Grammar.Relabel
import LoxLang.Proofs.Token.Lines
import LoxLang.Proofs.Token.Division
import LoxLang.Proofs.Scope.Continued
import LoxLang.Proofs.Eval.Alike
import LoxLang.Proofs.Eval.Twin
import LoxLang.Proofs.Session.Alike
import LoxLang.Proofs.Session.Split
import LoxLang.Proofs.Session.Rejected
import LoxLang.Proofs.Scope.Visits
import LoxLang.Proofs.Scope.Once
import LoxLang.Proofs.Eval.Tasks
import LoxLang.Proofs.Eval.Reached
import LoxLang.Proofs.Session.Scoped
import LoxLang.Proofs.Eval.Growth
import LoxLang.Proofs.Eval.Bound
import LoxLang.Proofs.Session.Bound
import LoxLang.Proofs.Eval.Global
import LoxLang.Proofs.Session.Globals
import LoxLang.Proofs.Grammar.Nodes
import LoxLang.Proofs.Parsing.Numbering
import LoxLang.Proofs.Session.Numbers
import LoxLang.Proofs.Grammar.Renumber
import LoxLang.Proofs.Parsing.Renumbered
import LoxLang.Proofs.Scope.Known
import LoxLang.Proofs.Session.Checked
import LoxLang.Proofs.Parsing.Fence
import LoxLang.Proofs.Parsing.Sequence
import LoxLang.Proofs.Parsing.Recovery
import LoxLang.Proofs.Grammar.Shape
import LoxLang.Proofs.Parsing.Shape
import LoxLang.Proofs.Scope.Places
import LoxLang.Proofs.Scope.Findings
import LoxLang.Proofs.Scope.Table
import LoxLang.Proofs.Scope.Misuses
import LoxLang.Proofs.Token.Places
import LoxLang.Proofs.Token.Spaced
import LoxLang.Proofs.Parsing.Cursor
import LoxLang.Proofs.Parsing.Inside
import LoxLang.Proofs.Parsing.Progress
import LoxLang.Proofs.Eval.Proceed
import LoxLang.Proofs.Eval.Update
import LoxLang.Proofs.Eval.Course
import LoxLang.Proofs.Session.Course
import LoxLang.Proofs.Eval.Methods
import LoxLang.Proofs.Session.Methods
import LoxLang.Proofs.Eval.Receiver
import LoxLang.Proofs.Session.Receiver
import LoxLang.Proofs.Eval.Construction
import LoxLang.Proofs.Session.Construction
import LoxLang.Proofs.Eval.Reframed
import LoxLang.Proofs.Eval.Abreast
import LoxLang.Proofs.Eval.ForLoop
import LoxLang.Proofs.Session.ForLoop
import LoxLang.Proofs.Eval.Recorded
import LoxLang.Proofs.Eval.Returning
import LoxLang.Proofs.Environment.Access
import LoxLang.Proofs.Scope.Initializers
import LoxLang.Proofs.Number.Rounding
import LoxLang.Proofs.Number.Shortest
import LoxLang.Proofs.Number.Spelling
import LoxLang.Proofs.Session.Numerals
import LoxLang.Proofs.CommandLine.Log
import LoxLang.Proofs.Parsing.Holders
import LoxLang.Proofs.Scope.Tidy
import LoxLang.Proofs.Scope.Passages
