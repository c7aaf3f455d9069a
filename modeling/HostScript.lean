import HostScript.Bindings
import HostScript.Console
import HostScript.Decimal
import HostScript.Decimal.Notation
import HostScript.Decimal.Reading
import HostScript.Diagnostic
import HostScript.Diagnostic.Exchange
import HostScript.Diagnostic.Fault
import HostScript.Heap
import HostScript.Inspect
import HostScript.Json
import HostScript.Json.Printer
import HostScript.Json.Reader
import HostScript.Machine
import HostScript.Machine.Builtins
import HostScript.Machine.Evaluation
import HostScript.Machine.Objects
import HostScript.Proofs.Activity
import HostScript.Proofs.Aliases
import HostScript.Proofs.Balance
import HostScript.Proofs.Begins
import HostScript.Proofs.Blaming
import HostScript.Proofs.Causes
import HostScript.Proofs.Checking
import HostScript.Proofs.Confinement
import HostScript.Proofs.ControlFlow
import HostScript.Proofs.Conversions
import HostScript.Proofs.Courses
import HostScript.Proofs.Decimal
import HostScript.Proofs.DepthLimit
import HostScript.Proofs.Evolution
import HostScript.Proofs.Evolution.Effects
import HostScript.Proofs.Evolution.Objects
import HostScript.Proofs.Evolution.Runs
import HostScript.Proofs.Exchange
import HostScript.Proofs.Findings
import HostScript.Proofs.Grammar
import HostScript.Proofs.Growth
import HostScript.Proofs.Handles
import HostScript.Proofs.Hosting
import HostScript.Proofs.Hygiene
import HostScript.Proofs.Identities
import HostScript.Proofs.Inheritance
import HostScript.Proofs.Initializers
import HostScript.Proofs.Json
import HostScript.Proofs.Layout
import HostScript.Proofs.Lexing.Bytes
import HostScript.Proofs.Lexing.Lossless
import HostScript.Proofs.Lexing.Numerals
import HostScript.Proofs.Lexing.Respacing
import HostScript.Proofs.Lexing.Segments
import HostScript.Proofs.Matching
import HostScript.Proofs.Matching.Evaluation
import HostScript.Proofs.Matching.Hosts
import HostScript.Proofs.Operators
import HostScript.Proofs.Parsing.Agreeing
import HostScript.Proofs.Parsing.Completeness
import HostScript.Proofs.Parsing.ExactSpans
import HostScript.Proofs.Parsing.Expressions
import HostScript.Proofs.Parsing.Following
import HostScript.Proofs.Parsing.Giving
import HostScript.Proofs.Parsing.Leading
import HostScript.Proofs.Parsing.Lines
import HostScript.Proofs.Parsing.Making
import HostScript.Proofs.Parsing.Nesting
import HostScript.Proofs.Parsing.Progress
import HostScript.Proofs.Parsing.Reading
import HostScript.Proofs.Parsing.Recovery
import HostScript.Proofs.Parsing.Rereading.Expressions
import HostScript.Proofs.Parsing.Rereading.Statements
import HostScript.Proofs.Parsing.Soundness
import HostScript.Proofs.Parsing.SourceLines
import HostScript.Proofs.Parsing.Statements
import HostScript.Proofs.Parsing.Trees
import HostScript.Proofs.Pieces
import HostScript.Proofs.Quiet
import HostScript.Proofs.Receivers
import HostScript.Proofs.Refusals
import HostScript.Proofs.Regime
import HostScript.Proofs.Regime.Host
import HostScript.Proofs.Regime.Objects
import HostScript.Proofs.Regime.Sound
import HostScript.Proofs.Relabeling
import HostScript.Proofs.Remembering
import HostScript.Proofs.Returning
import HostScript.Proofs.Scoping.Alignment
import HostScript.Proofs.Scoping.Assignments
import HostScript.Proofs.Scoping.Balanced
import HostScript.Proofs.Scoping.Exactness
import HostScript.Proofs.Scoping.Histories
import HostScript.Proofs.Scoping.Known
import HostScript.Proofs.Scoping.Lookups
import HostScript.Proofs.Scoping.Places
import HostScript.Proofs.Scoping.Programs
import HostScript.Proofs.Scoping.Rules
import HostScript.Proofs.Scoping.Running
import HostScript.Proofs.Scoping.Stepwise
import HostScript.Proofs.Scoping.Visits
import HostScript.Proofs.Sessions
import HostScript.Proofs.Starting
import HostScript.Proofs.Stored
import HostScript.Proofs.Termination
import HostScript.Proofs.Tree
import HostScript.Proofs.Vectors
import HostScript.Proofs.Wp
import HostScript.Proofs.Writes
import HostScript.Resolution
import HostScript.Session
import HostScript.Span
import HostScript.Store
import HostScript.Syntax
import HostScript.Syntax.Cursor
import HostScript.Syntax.Expressions
import HostScript.Syntax.Parsed
import HostScript.Syntax.Statements
import HostScript.Text.Classes
import HostScript.Text.Lines
import HostScript.Token
import HostScript.Token.Lexer
import HostScript.Value
import HostScript.Value.Cells
import HostScript.Value.Display
import HostScript.Value.Operators
import HostScript.Value.Vector
