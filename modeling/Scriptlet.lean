import Scriptlet.Ast.Expr
import Scriptlet.Ast.Stmt
import Scriptlet.Ast.Ty
import Scriptlet.Command
import Scriptlet.Error
import Scriptlet.Eval.Expr
import Scriptlet.Eval.Run
import Scriptlet.Eval.State
import Scriptlet.Eval.Stmt
import Scriptlet.FileTree
import Scriptlet.Interchange.Ast
import Scriptlet.Interchange.Json
import Scriptlet.Main
import Scriptlet.Number.Binary
import Scriptlet.Number.Decimal
import Scriptlet.Number.NearestEven
import Scriptlet.Number.Word
import Scriptlet.OrderedMap
import Scriptlet.Proofs.Activations
import Scriptlet.Proofs.Alignment
import Scriptlet.Proofs.Annotations
import Scriptlet.Proofs.AppendOnly
import Scriptlet.Proofs.Arithmetic
import Scriptlet.Proofs.Bracketing
import Scriptlet.Proofs.Builtin
import Scriptlet.Proofs.CallDepth
import Scriptlet.Proofs.CallEntry
import Scriptlet.Proofs.Chains
import Scriptlet.Proofs.Chronicle
import Scriptlet.Proofs.Comparisons
import Scriptlet.Proofs.Composition
import Scriptlet.Proofs.Conversion
import Scriptlet.Proofs.Counting
import Scriptlet.Proofs.DataText
import Scriptlet.Proofs.Declarations
import Scriptlet.Proofs.Diagnostics
import Scriptlet.Proofs.Dictionaries
import Scriptlet.Proofs.Discipline
import Scriptlet.Proofs.Effect
import Scriptlet.Proofs.Evaluation
import Scriptlet.Proofs.Exits
import Scriptlet.Proofs.HeapHistory
import Scriptlet.Proofs.InsertionOrder
import Scriptlet.Proofs.Interchange
import Scriptlet.Proofs.Isolation
import Scriptlet.Proofs.KnownText
import Scriptlet.Proofs.Literals
import Scriptlet.Proofs.Lockstep
import Scriptlet.Proofs.Lookahead
import Scriptlet.Proofs.LoopHeads
import Scriptlet.Proofs.Nesting
import Scriptlet.Proofs.Numerals
import Scriptlet.Proofs.OperandText
import Scriptlet.Proofs.Placement
import Scriptlet.Proofs.Positions
import Scriptlet.Proofs.Presence
import Scriptlet.Proofs.Printing
import Scriptlet.Proofs.Progress
import Scriptlet.Proofs.Ranges
import Scriptlet.Proofs.Reading
import Scriptlet.Proofs.Record
import Scriptlet.Proofs.Regime
import Scriptlet.Proofs.Rendering
import Scriptlet.Proofs.Repetition
import Scriptlet.Proofs.Reports
import Scriptlet.Proofs.Retelling
import Scriptlet.Proofs.RoundTrip
import Scriptlet.Proofs.Scoping
import Scriptlet.Proofs.Seam
import Scriptlet.Proofs.Severity
import Scriptlet.Proofs.Simulation
import Scriptlet.Proofs.SourceErrors
import Scriptlet.Proofs.Stepping
import Scriptlet.Proofs.Stores
import Scriptlet.Proofs.Syntax
import Scriptlet.Proofs.Termination
import Scriptlet.Proofs.Tracing
import Scriptlet.Proofs.Triple
import Scriptlet.Proofs.TypedStore
import Scriptlet.Proofs.Watch
import Scriptlet.Scope
import Scriptlet.Session
import Scriptlet.Settings
import Scriptlet.Sink
import Scriptlet.Source.Cursor
import Scriptlet.Source.ExprParser
import Scriptlet.Source.Literal
import Scriptlet.Source.Parser
import Scriptlet.Source.StmtParser
import Scriptlet.Source.TyParser
import Scriptlet.Text.Alphabetic
import Scriptlet.Text.Blank
import Scriptlet.Text.ByteOrder
import Scriptlet.Text.CodeRange
import Scriptlet.Text.Identifier
import Scriptlet.Text.Numeric
import Scriptlet.Tool.Basic
import Scriptlet.Tool.Builtin
import Scriptlet.Value.Access
import Scriptlet.Value.Basic
import Scriptlet.Value.Coercion
import Scriptlet.Value.Heap
import Scriptlet.Value.Kind
import Scriptlet.Value.Operator
import Scriptlet.Value.Render
import Scriptlet.Value.Sequence
