import ScriptEngine.Assoc
import ScriptEngine.Builtin.Arrays
import ScriptEngine.Builtin.Basic
import ScriptEngine.Builtin.Collections
import ScriptEngine.Builtin.Concurrent
import ScriptEngine.Builtin.Globals
import ScriptEngine.Builtin.Maps
import ScriptEngine.Builtin.Numbers
import ScriptEngine.Builtin.Objects
import ScriptEngine.Builtin.Texts
import ScriptEngine.Channel
import ScriptEngine.Channel.Traffic
import ScriptEngine.Console.Arguments
import ScriptEngine.Console.Basic
import ScriptEngine.Console.Files
import ScriptEngine.Console.Repl
import ScriptEngine.Console.Usage
import ScriptEngine.Decimal.Binary
import ScriptEngine.Decimal.Double
import ScriptEngine.Decimal.Shortest
import ScriptEngine.Decimal.Text
import ScriptEngine.Eval.Access
import ScriptEngine.Eval.Declare
import ScriptEngine.Eval.Expression
import ScriptEngine.Eval.Invoke
import ScriptEngine.Eval.Monad
import ScriptEngine.Eval.Operators
import ScriptEngine.Eval.Statement
import ScriptEngine.Eval.Threads
import ScriptEngine.Fault.Cause
import ScriptEngine.Future
import ScriptEngine.Future.Settling
import ScriptEngine.Grammar.Declaration
import ScriptEngine.Grammar.Error
import ScriptEngine.Grammar.Expression
import ScriptEngine.Grammar.Program
import ScriptEngine.Grammar.State
import ScriptEngine.Grammar.Statement
import ScriptEngine.Grammar.Types
import ScriptEngine.Heap.Basic
import ScriptEngine.Heap.Display
import ScriptEngine.Heap.Event
import ScriptEngine.Heap.Registry
import ScriptEngine.Heap.Traced
import ScriptEngine.Main
import ScriptEngine.Object.Class
import ScriptEngine.Overload
import ScriptEngine.Prelude
import ScriptEngine.Proofs.Channels.Conservation
import ScriptEngine.Proofs.Channels.Hub
import ScriptEngine.Proofs.Channels.Rounds
import ScriptEngine.Proofs.Channels.Selects
import ScriptEngine.Proofs.Channels.Steps
import ScriptEngine.Proofs.Channels.Wakeups
import ScriptEngine.Proofs.Collections.Extents
import ScriptEngine.Proofs.Collections.Failures
import ScriptEngine.Proofs.Collections.Sorting
import ScriptEngine.Proofs.Console.Gathering
import ScriptEngine.Proofs.Evaluation.Arguments
import ScriptEngine.Proofs.Evaluation.Ascent
import ScriptEngine.Proofs.Evaluation.Builtins
import ScriptEngine.Proofs.Evaluation.Calls
import ScriptEngine.Proofs.Evaluation.Checks
import ScriptEngine.Proofs.Evaluation.Composed
import ScriptEngine.Proofs.Evaluation.Implementations
import ScriptEngine.Proofs.Evaluation.Language
import ScriptEngine.Proofs.Evaluation.Laws
import ScriptEngine.Proofs.Evaluation.Overloading
import ScriptEngine.Proofs.Evaluation.Privacy
import ScriptEngine.Proofs.Evaluation.Threads
import ScriptEngine.Proofs.Faults.Ledger
import ScriptEngine.Proofs.Faults.Session
import ScriptEngine.Proofs.Frames.Evaluation
import ScriptEngine.Proofs.Frames.History
import ScriptEngine.Proofs.Frames.Holding
import ScriptEngine.Proofs.Frames.Session
import ScriptEngine.Proofs.Frames.Threads
import ScriptEngine.Proofs.Futures.Chains
import ScriptEngine.Proofs.Futures.Confluence
import ScriptEngine.Proofs.Futures.Interpreter
import ScriptEngine.Proofs.Futures.Settlement
import ScriptEngine.Proofs.Futures.Steps
import ScriptEngine.Proofs.Grammar.Alongside
import ScriptEngine.Proofs.Grammar.Composition
import ScriptEngine.Proofs.Grammar.Declarations
import ScriptEngine.Proofs.Grammar.Expressions
import ScriptEngine.Proofs.Grammar.Layout
import ScriptEngine.Proofs.Grammar.Likeness
import ScriptEngine.Proofs.Grammar.Places
import ScriptEngine.Proofs.Grammar.Precedence
import ScriptEngine.Proofs.Grammar.Progress
import ScriptEngine.Proofs.Grammar.Statements
import ScriptEngine.Proofs.Maps.Dictionary
import ScriptEngine.Proofs.Maps.Keys
import ScriptEngine.Proofs.Maps.Texts
import ScriptEngine.Proofs.Nesting.Laws
import ScriptEngine.Proofs.Nesting.Session
import ScriptEngine.Proofs.Registry.Declaration
import ScriptEngine.Proofs.Registry.Entry
import ScriptEngine.Proofs.Registry.Lawful
import ScriptEngine.Proofs.Registry.Reach
import ScriptEngine.Proofs.Registry.Subtypes
import ScriptEngine.Proofs.Resets.Answers
import ScriptEngine.Proofs.Resets.Calls
import ScriptEngine.Proofs.Resets.Collections
import ScriptEngine.Proofs.Resets.Concurrency
import ScriptEngine.Proofs.Resets.Declarations
import ScriptEngine.Proofs.Resets.Forgetting
import ScriptEngine.Proofs.Resets.Law
import ScriptEngine.Proofs.Resets.Members
import ScriptEngine.Proofs.Resets.Reading
import ScriptEngine.Proofs.Resets.Recent
import ScriptEngine.Proofs.Resets.Sequences
import ScriptEngine.Proofs.Resets.Session
import ScriptEngine.Proofs.Resets.Statements
import ScriptEngine.Proofs.Resets.Threads
import ScriptEngine.Proofs.Resets.Writing
import ScriptEngine.Proofs.Scopes.Assignment
import ScriptEngine.Proofs.Scopes.Imports
import ScriptEngine.Proofs.Scopes.Snapshot
import ScriptEngine.Proofs.Seams.Programs
import ScriptEngine.Proofs.Stores.Agreement
import ScriptEngine.Proofs.Stores.Answers
import ScriptEngine.Proofs.Stores.Change
import ScriptEngine.Proofs.Stores.Collections
import ScriptEngine.Proofs.Stores.Concurrency
import ScriptEngine.Proofs.Stores.Construction
import ScriptEngine.Proofs.Stores.Courses
import ScriptEngine.Proofs.Stores.Declarations
import ScriptEngine.Proofs.Stores.Enums
import ScriptEngine.Proofs.Stores.Fitting
import ScriptEngine.Proofs.Stores.Immutability
import ScriptEngine.Proofs.Stores.Invocation
import ScriptEngine.Proofs.Stores.Keeping
import ScriptEngine.Proofs.Stores.Lookups
import ScriptEngine.Proofs.Stores.Members
import ScriptEngine.Proofs.Stores.Path
import ScriptEngine.Proofs.Stores.Scoping
import ScriptEngine.Proofs.Stores.Sequences
import ScriptEngine.Proofs.Stores.Session
import ScriptEngine.Proofs.Stores.Statements
import ScriptEngine.Proofs.Stores.World
import ScriptEngine.Proofs.Texts.Occurrences
import ScriptEngine.Proofs.Throws.Evaluation
import ScriptEngine.Proofs.Throws.Flight
import ScriptEngine.Proofs.Throws.Law
import ScriptEngine.Proofs.Tokens.Blanks
import ScriptEngine.Proofs.Tokens.Interpolation
import ScriptEngine.Proofs.Tokens.Lexemes
import ScriptEngine.Proofs.Tokens.Positions
import ScriptEngine.Proofs.Tokens.Quotes
import ScriptEngine.Proofs.Tokens.Reading
import ScriptEngine.Proofs.Tokens.Skimming
import ScriptEngine.Proofs.Tokens.Tiling
import ScriptEngine.Proofs.Types.Acceptance
import ScriptEngine.Proofs.Types.Readable
import ScriptEngine.Proofs.Types.RoundTrip
import ScriptEngine.Proofs.Typing.Bounds
import ScriptEngine.Proofs.Typing.Instantiation
import ScriptEngine.Proofs.Typing.Nominal
import ScriptEngine.Proofs.Typing.Objects
import ScriptEngine.Proofs.Typing.Recording
import ScriptEngine.Proofs.Typing.Renaming
import ScriptEngine.Proofs.Typing.Runtime
import ScriptEngine.Proofs.Typing.Spelling
import ScriptEngine.Proofs.Typing.Subtyping
import ScriptEngine.Proofs.Values.Equality
import ScriptEngine.Proofs.Values.Parts
import ScriptEngine.Proofs.Values.Rendering
import ScriptEngine.Scope
import ScriptEngine.Session
import ScriptEngine.Source.Span
import ScriptEngine.Text.Case
import ScriptEngine.Text.CaseTable
import ScriptEngine.Text.Search
import ScriptEngine.Token.Basic
import ScriptEngine.Token.Error
import ScriptEngine.Token.Lexeme
import ScriptEngine.Token.Quoted
import ScriptEngine.Token.Stream
import ScriptEngine.Tree.Basic
import ScriptEngine.TypeExpr.Basic
import ScriptEngine.TypeExpr.Canonical
import ScriptEngine.Typing.Conform
import ScriptEngine.Typing.Subtype
import ScriptEngine.Value.Basic
import ScriptEngine.Value.KeyedMap
