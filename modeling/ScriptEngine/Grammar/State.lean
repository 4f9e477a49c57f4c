import ScriptEngine.Grammar.Error
import ScriptEngine.Tree.Basic

/-!
# Reading states

A reader of a piece of grammar is a function on reading states that gives a tree or an error; the
state is kept in both cases, because a caller may try again from an earlier place and because the
nesting counter outlives an error.

The state holds the tokens that are left, the end of the text last.  The readers that call each
other recursively are collected in a record, `Reader`, which every piece of the grammar takes as an
argument; `Grammar/Program` ties the knot.
-/

namespace ScriptEngine
namespace Grammar

/-- How deep expressions, types and statements may nest. -/
def maxDepth : Nat := 256

/-- A reading state. -/
structure State where
  /-- The tokens that are left; never empty, the last one is the end of the text. -/
  rest : List LocatedToken
  /-- The span of the token consumed last. -/
  last : Option Span
  /-- The nesting depth of the tree under construction. -/
  depth : Nat
  /-- The number of tokens there were at the start. -/
  size : Nat
  /-- The number of readers that were refused because they would have nested too deep.  It is only
  told: no reader asks for it. -/
  refused : Nat

/-- A reader of a piece of grammar. -/
abbrev Parse := EStateM ParseError State

/-- The readers that the pieces of the grammar share. -/
structure Reader where
  /-- A full expression, one level deeper. -/
  expression : Parse Expr
  /-- An expression whose operators bind at least as tightly as the level. -/
  operators : Nat → Parse Expr
  /-- An expression without binary operators. -/
  unary : Parse Expr
  statement : Parse Stmt
  /-- A statement at the level of its caller. -/
  statementHere : Parse Stmt
  type : Parse TypeExpr

/-- The state at the start of a sequence of tokens; the end of the text is added when missing. -/
def State.ofTokens (tokens : List LocatedToken) : State :=
  let rest := match tokens.getLast? with
    | some (.eof, _) => tokens
    | some (_, s) => tokens ++ [(.eof, ⟨s.stop, s.stop, s.line, s.column⟩)]
    | none => [(.eof, ⟨0, 0, 1, 1⟩)]
  ⟨rest, none, 0, rest.length, 0⟩

def State.current (s : State) : LocatedToken :=
  s.rest.headD (.eof, default)

/-- The state after consuming the token in front; the last token is never consumed. -/
def State.advance (s : State) : State :=
  match s.rest with
  | t :: u :: r => { s with rest := u :: r, last := some t.2 }
  | _ => s

def current : Parse Token := do return (← get).current.1

/-- The span of the token in front. -/
def currentSpan : Parse Span := do return (← get).current.2

def peek (n : Nat) : Parse Token := do
  return match (← get).rest[n]? with
    | some t => t.1
    | none => .eof

/-- The span of the token `n` places on, or of the end of the text. -/
def peekSpan (n : Nat) : Parse Span := do
  let s ← get
  return match s.rest[n]? with
    | some t => t.2
    | none => (s.rest.getLast?.map Prod.snd).getD default

/-- The span of the token consumed last, or of the one in front at the very start. -/
def lastSpan : Parse Span := do
  let s ← get
  return s.last.getD s.current.2

/-- Consumes the token in front. -/
def advance : Parse Unit := modify State.advance

/-- Whether the text is used up. -/
def atEof : Parse Bool := do return (← current).isEof

/-- Whether the token in front stands on the line of the token before it. -/
def continuesLine : Parse Bool := do
  let s ← get
  return match s.last with
    | some l => s.current.2.line == l.line
    | none => false

def atMark (m : Mark) : Parse Bool := do return (← current).isMark m

def atWord (k : Keyword) : Parse Bool := do return (← current).isKeyword k

def atAnyWord (ks : List Keyword) : Parse Bool := do
  let t ← current
  return ks.any t.isKeyword

/-- Consumes the given mark if it is in front. -/
def eatMark (m : Mark) : Parse Bool := do
  if ← atMark m then
    advance
    return true
  else return false

/-- Consumes the given word if it is in front. -/
def eatWord (k : Keyword) : Parse Bool := do
  if ← atWord k then
    advance
    return true
  else return false

/-- The error that the token in front is not one of those expected. -/
def unexpected (expected : List Expected) : Parse ParseError := do
  let s ← get
  return match s.current.1 with
    | .eof => .ofCause (.unexpectedEof expected) s.current.2
    | t => .ofCause (.unexpectedToken expected t) s.current.2

/-- Fails because the token in front is not one of those expected. -/
def failExpecting {α : Type} (expected : List Expected) : Parse α := do
  throw (← unexpected expected)

/-- Fails because of what was read. -/
def failInvalid {α : Type} (reason : String) (span : Span) : Parse α :=
  throw (.ofCause (.invalid reason) span)

/-- Consumes the given mark or fails. -/
def expectMark (m : Mark) : Parse Unit := do
  unless ← eatMark m do failExpecting [.mark m]

/-- Consumes the given word or fails. -/
def expectWord (k : Keyword) : Parse Unit := do
  unless ← eatWord k do failExpecting [.word k]

/-- Consumes a name or fails. -/
def expectName : Parse String := do
  match ← current with
  | .identifier name =>
    advance
    return name
  | _ => failExpecting [.name]

/-- Consumes the word that closes a block, or reports the block that was left open. -/
def closeBlock (openedBy : String) (openedAt : Span) : Parse Unit := do
  if ← atWord .endKw then advance
  else if ← atEof then throw (.ofCause (.unclosedBlock openedBy) openedAt)
  else failExpecting [.word .endKw]

/-- From the start of one span to the end of another. -/
def joinSpans (start stop : Span) : Span :=
  ⟨start.start, stop.stop, start.line, start.column⟩

/-- From the start of a span to the end of the token consumed last. -/
def spanSince (start : Span) : Parse Span := do return joinSpans start (← lastSpan)

/-- Runs a reader one level deeper.  The reader that finds the limit exceeded fails at once and
leaves the counter as it found it raised. -/
def nested {α : Type} (p : Parse α) : Parse α := do
  modify fun s => { s with depth := s.depth + 1 }
  if maxDepth < (← get).depth then
    modify fun s => { s with refused := s.refused + 1 }
    throw (.ofCause (.limit "nesting too deep") (← currentSpan))
  let leave : Parse Unit := modify fun s => { s with depth := s.depth - 1 }
  let result ← try
      let a ← p
      pure (Except.ok a)
    catch e => pure (Except.error e)
  leave
  match result with
  | .ok a => return a
  | .error e => throw e

/-- Runs a reader; when it fails or gives nothing, goes back to where it started.  The nesting
counter is not part of the place. -/
def tryRead {α : Type} (p : Parse (Option α)) : Parse (Option α) := do
  let s ← get
  let back : Parse (Option α) := do
    modify fun t => { t with rest := s.rest, last := s.last }
    return none
  let result ← try p catch _ => pure none
  match result with
  | some a => return some a
  | none => back

/-- What a round of a repetition says: go on with a new value, or stop with a result. -/
inductive Round (α β : Type)
  | again (value : α)
  | done (result : β)

/-- Repeats a reader for a bounded number of rounds. -/
def repeatBounded {α β : Type} (round : α → Parse (Round α β)) : Nat → α → Parse β
  | 0, _ => do throw (.ofCause (.limit "too many rounds") (← currentSpan))
  | n + 1, a => do
    match ← round a with
    | .again a' => repeatBounded round n a'
    | .done b => return b

/-- Repeats a reader that consumes a token in every round but the last: there are at most as many
rounds as the text has tokens. -/
def repeatRead {α β : Type} (round : α → Parse (Round α β)) (a : α) : Parse β := do
  repeatBounded round ((← get).size + 1) a

end Grammar
end ScriptEngine
