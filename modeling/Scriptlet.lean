import Scriptlet.Text.CodePoints
import Scriptlet.Text.Characters
import Scriptlet.Text.Printable
import Scriptlet.Text.Escape
import Scriptlet.Text.Quoted
import Scriptlet.Text.Decimal
import Scriptlet.Value.Basic
import Scriptlet.Value.Text
import Scriptlet.Operator
import Scriptlet.Scope.Basic
import Scriptlet.Scope.Script
import Scriptlet.Token.Basic
import Scriptlet.Token.Gap
import Scriptlet.Token.Lexeme
import Scriptlet.Token.Scanner
import Scriptlet.Token.Cursor
import Scriptlet.Syntax.Basic
import Scriptlet.Syntax.Parser
import Scriptlet.Machine.Basic
import Scriptlet.Machine.Eval
import Scriptlet.Machine.Interpret
import Scriptlet.Machine.Command
import Scriptlet.Outcome
import Scriptlet.Settings.Basic
import Scriptlet.Settings.Logger
import Scriptlet.Settings.HostLimit
import Scriptlet.Diagnostic
import Scriptlet.Syntax.Printer
import Scriptlet.Proofs.Congruence
import Scriptlet.Proofs.Frame
import Scriptlet.Proofs.VisibleBindings
import Scriptlet.Proofs.Grammar
import Scriptlet.Proofs.Lexemes
import Scriptlet.Proofs.Scanning
import Scriptlet.Proofs.Outlook
import Scriptlet.Proofs.Reading
import Scriptlet.Proofs.Phrases
import Scriptlet.Proofs.Soundness
import Scriptlet.Proofs.Completeness
import Scriptlet.Proofs.Unambiguous
import Scriptlet.Proofs.RoundTrip
import Scriptlet.Proofs.CallLimit
import Scriptlet.Proofs.Termination
import Scriptlet.Proofs.Spans
import Scriptlet.Proofs.Layout
import Scriptlet.Proofs.Rules
import Scriptlet.Proofs.Places
import Scriptlet.Proofs.Locality
import Scriptlet.Proofs.Stalls
import Scriptlet.Proofs.Viability
import Scriptlet.Proofs.FirstImpossible
import Scriptlet.Proofs.Tiling
import Scriptlet.Proofs.Contract
import Scriptlet.Proofs.Equations
import Scriptlet.Proofs.Failures
import Scriptlet.Proofs.ValueDomain
import Scriptlet.Proofs.Sessions
import Scriptlet.Proofs.Tasks
import Scriptlet.Proofs.Counterparts
import Scriptlet.Proofs.Variations
import Scriptlet.Proofs.ScanningAhead
import Scriptlet.Proofs.Display
import Scriptlet.Proofs.Moves
import Scriptlet.Proofs.Lookahead
import Scriptlet.Proofs.Conservation
import Scriptlet.Proofs.Subtraction
import Scriptlet.Proofs.TightSubtraction
import Scriptlet.Proofs.LongestLexeme
import Scriptlet.Proofs.Environment
import Scriptlet.Proofs.Confinement
import Scriptlet.Proofs.StatementEnds
import Scriptlet.Proofs.LineBreaks
import Scriptlet.Proofs.Arithmetic
import Scriptlet.Proofs.Sameness
import Scriptlet.Proofs.Escapes
import Scriptlet.Proofs.Metering
import Scriptlet.Proofs.Progress
import Scriptlet.Proofs.NestingRoom
