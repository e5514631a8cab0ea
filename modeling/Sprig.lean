import Sprig.Lines
import Sprig.Number.Integer
import Sprig.Number.Binary64
import Sprig.Number.Decimal
import Sprig.Number.FloatText
import Sprig.Text.Blank
import Sprig.Text.Ranges
import Sprig.Text.GraphemeExtend
import Sprig.Text.Width
import Sprig.Operator
import Sprig.Fault
import Sprig.Token
import Sprig.Token.Scan
import Sprig.LogicalLine
import Sprig.Scope
import Sprig.Expr
import Sprig.Program
import Sprig.Production
import Sprig.Expr.Grammar
import Sprig.Program.Grammar
import Sprig.Value
import Sprig.Arithmetic
import Sprig.Console
import Sprig.Frame
import Sprig.Machine
import Sprig.Eval
import Sprig.Session
import Sprig.Diagnostic
import Sprig.Diagnostic.Report
import Sprig.Script
import Sprig.Repl
import Sprig.Command
import Sprig.Main
import Sprig.Proofs.Bridge
import Sprig.Proofs.GrammarBridge
import Sprig.Proofs.FullRules
import Sprig.Proofs.TextBridge
import Sprig.Proofs.ScopeLemmas
import Sprig.Proofs.ScopeStack
import Sprig.Proofs.MemoSound
import Sprig.Proofs.Finds
import Sprig.Proofs.GrammarFinds
import Sprig.Proofs.Reading
import Sprig.Proofs.Extent
import Sprig.Proofs.Append
import Sprig.Proofs.Compositional
import Sprig.Proofs.Cuts
import Sprig.Proofs.Handover
import Sprig.Proofs.Interactive
import Sprig.Proofs.Printing
import Sprig.Proofs.Operands
import Sprig.Proofs.Phrases
import Sprig.Proofs.Recovery
import Sprig.Proofs.Equalities
import Sprig.Proofs.FrameLemmas
import Sprig.Proofs.Kept
import Sprig.Proofs.Declared
import Sprig.Proofs.Scoped
import Sprig.Proofs.Params
import Sprig.Proofs.ValueLemmas
import Sprig.Proofs.Beside
import Sprig.Proofs.Batch
import Sprig.Proofs.Visits
import Sprig.Proofs.Stores
import Sprig.Proofs.RunBridge
import Sprig.Proofs.CallFrames
import Sprig.Proofs.Renumbering
import Sprig.Proofs.FaultLines
import Sprig.Proofs.IdleLines
import Sprig.Proofs.ExactIntegers
import Sprig.Proofs.LoopFree
import Sprig.Proofs.Rescan
import Sprig.Proofs.FullSink
import Sprig.Proofs.Precedence
import Sprig.Proofs.Meets
import Sprig.Proofs.FaultWords
import Sprig.Proofs.Complaints
import Sprig.Proofs.Local
import Sprig.Proofs.Parentheses
import Sprig.Proofs.Spans
import Sprig.Proofs.Spelling
import Sprig.Proofs.Migration
import Sprig.Proofs.Delivery
import Sprig.Proofs.LineSpans
import Sprig.Proofs.Commas
import Sprig.Proofs.Targets
import Sprig.Proofs.Descent
import Sprig.Proofs.DescentState
import Sprig.Proofs.DescentRules
import Sprig.Proofs.DescentWeights
import Sprig.Proofs.DescentLines
import Sprig.Proofs.DescentBlocks
import Sprig.Proofs.DescentParse
import Sprig.Proofs.DescentContract
import Sprig.Proofs.DescentReached
