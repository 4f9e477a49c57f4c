import ScriptEngine.Grammar.Statement
import ScriptEngine.Token.Stream

/-!
# Reading programs

`readers` ties the pieces of the grammar together.  Every call through the record of readers comes
after a token was consumed, or goes from an expression to the part of it without operators, so a
bound of a few rounds per token is never reached; the tokens of embedded expressions count too.

* `Program.ofTokens` reads a program and goes on after an error at the next line that starts a
  statement.
* `Program.read` reads a program from its text, `TypeExpr.read` a type.
-/

namespace ScriptEngine
namespace Grammar

/-- The readers with a bound on their calls of each other. -/
def readers : Nat → Reader
  | 0 =>
    let fail {α : Type} : Parse α := do
      throw (.ofCause (.limit "too many rounds") (← currentSpan))
    ⟨fail, fun _ => fail, fail, fail, fail, fail⟩
  | n + 1 =>
    { expression := fun s => nested (expressionHere (readers n)) s
      operators := fun least s => operatorsFrom (readers n) least s
      unary := fun s => unaryExpr (readers n) s
      statement := fun s => nested (statementHere (readers n)) s
      statementHere := fun s => statementHere (readers n) s
      type := fun s => typeExpr (readers n) s }

mutual

def tokenWeight : Token → Nat
  | .template parts => 1 + partsWeight parts
  | _ => 1

/-- The number of tokens in the parts of a template. -/
def partsWeight : List TemplatePart → Nat
  | [] => 0
  | p :: ps => partWeight p + partsWeight ps

/-- The number of tokens in a part of a template. -/
def partWeight : TemplatePart → Nat
  | .text _ => 0
  | .hole ts => 1 + tokensWeight ts

/-- The number of tokens in a sequence. -/
def tokensWeight : List (Token × Span) → Nat
  | [] => 0
  | t :: ts => pairWeight t + tokensWeight ts

/-- The number of tokens in a token with its place. -/
def pairWeight : Token × Span → Nat
  | (t, _) => tokenWeight t

end

def readersFor (tokens : List LocatedToken) : Reader := readers (4 * tokensWeight tokens + 16)

def opensStatement : Token → Bool
  | .keyword k =>
    match k with
    | .letKw | .varKw | .constKw | .finalKw | .defKw | .classKw | .abstractKw | .sealedKw
    | .interfaceKw | .enumKw | .recordKw | .ifKw | .forKw | .loopKw | .returnKw | .tryKw
    | .throwKw | .deferKw | .selectKw | .switchKw | .importKw | .endKw => true
    | _ => false
  | .identifier _ => true
  | _ => false

/-- The state at the next token, on another line than the error, that starts a statement. -/
def skipToStatement (line : Nat) : Nat → State → State
  | 0, s => s
  | n + 1, s =>
    match s.current with
    | (.eof, _) => s
    | (t, span) =>
      if span.line != line && opensStatement t then s else skipToStatement line n s.advance

/-- The state from which reading goes on after an error. -/
def State.resume (s : State) : State :=
  skipToStatement s.current.2.line s.rest.length s.advance

/-- Reads statements to the end of the text; the statements and errors found so far come last
first. -/
def readStatements (statement : Parse Stmt) :
    Nat → State → List Stmt → List ParseError → List Stmt × List ParseError
  | 0, _, stmts, errors => (stmts, errors)
  | n + 1, s, stmts, errors =>
    match s.current.1 with
    | .eof => (stmts, errors)
    | .mark .semicolon => readStatements statement n s.advance stmts errors
    | _ =>
      match statement s with
      | .ok stmt s' => readStatements statement n s' (stmt :: stmts) errors
      | .error e s' => readStatements statement n s'.resume stmts (e :: errors)

end Grammar

open Grammar in
def Program.ofTokens (tokens : List LocatedToken) : Except (List ParseError) Program :=
  let s := State.ofTokens tokens
  let result := readStatements (readersFor tokens).statement (s.rest.length + 1) s [] []
  match result.2 with
  | [] =>
    let start := s.current.2
    let span := match result.1 with
      | [] => start
      | stmt :: _ => joinSpans start stmt.span
    .ok ⟨result.1.reverse, span⟩
  | errors => .error errors.reverse

/-- What can be wrong with the text of a program. -/
inductive SourceError
  | tokens (errors : List LexError)
  | grammar (errors : List ParseError)

/-- The report of all errors, one a line. -/
def SourceError.text : SourceError → String
  | tokens es => "\n".intercalate (es.map LexError.text)
  | grammar es => "\n".intercalate (es.map ParseError.text)

def Program.read (source : String) : Except SourceError Program :=
  match tokenize source with
  | .error es => .error (.tokens es)
  | .ok ts =>
    match Program.ofTokens ts with
    | .error es => .error (.grammar es)
    | .ok p => .ok p

open Grammar in
def TypeExpr.read (spec : String) : Except ParseError TypeExpr :=
  match tokenize spec with
  | .error es =>
    let span := match es with
      | e :: _ => e.span
      | [] => default
    .error (.ofCause (.invalid ("invalid type '" ++ spec ++ "'")) span)
  | .ok ts =>
    let whole : Parse TypeExpr := do
      let t ← (readersFor ts).type
      unless ← atEof do failExpecting [.endOfText]
      return t
    match whole (State.ofTokens ts) with
    | .ok t _ => .ok t
    | .error e _ => .error e

end ScriptEngine
