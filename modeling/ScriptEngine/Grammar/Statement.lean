import ScriptEngine.Grammar.Declaration

/-!
# Reading statements

A block is opened by a header, which may end in a colon, and closed by `end`.  A bare `return` is
told from one with a value by the line it stands on, and a header of a loop by its colon.
-/

namespace ScriptEngine
namespace Grammar

variable (g : Reader)

def variableDecl : Parse Stmt := do
  let start ← currentSpan
  let kind := bindingKindOf (← current)
  advance
  let name ← expectName
  let type ← optionalType g
  let init ← initializer g
  if init.isNone && kind.isImmutable then
    failInvalid ("'" ++ name ++ "' must be initialized") (← currentSpan)
  return .variable kind name type init (← spanSince start)

/-- Reads the short declaration of a variable. -/
def shortDecl : Parse Stmt := do
  let start ← currentSpan
  let name ← expectName
  expectMark .colonEqual
  let init ← g.expression
  return .variable .letBinding name none (some init) (← spanSince start)

def assignOp? : Token → Option AssignOp
  | .mark .equal => some .assign
  | .mark .plusEqual => some .add
  | .mark .minusEqual => some .subtract
  | .mark .starEqual => some .multiply
  | .mark .slashEqual => some .divide
  | _ => none

/-- Reads an expression or an assignment. -/
def expressionStatement : Parse Stmt := do
  let start ← currentSpan
  let e ← g.expression
  match assignOp? (← current) with
  | some op =>
    unless e.isAssignable do throw (.ofCause .assignmentTarget e.span)
    advance
    let value ← g.expression
    return .assignment op e value (← spanSince start)
  | none => return .expression e (← spanSince start)

/-- Reads a return; its value must start on its line. -/
def returnStatement : Parse Stmt := do
  let start ← currentSpan
  expectWord .returnKw
  let token ← current
  let sameLine ← continuesLine
  let bare := token.endsBlock || !sameLine || token.isMark .semicolon
  let value ← if bare then pure none else some <$> g.expression
  return .ret value (← spanSince start)

def branchStatement : Parse Stmt := do
  let start ← currentSpan
  expectWord .ifKw
  let test ← g.expression
  let _ ← eatMark .colon
  let body ← block g [.elifKw, .elseKw, .endKw]
  let elifs ← repeatRead (fun acc => do
    if ← eatWord .elifKw then
      let test ← g.expression
      let _ ← eatMark .colon
      let body ← block g [.elifKw, .elseKw, .endKw]
      return .again (acc ++ [(test, body)])
    else return .done acc) []
  let otherwise ←
    if ← eatWord .elseKw then
      let _ ← eatMark .colon
      some <$> block g [.endKw]
    else pure none
  closeBlock "if" start
  return .branch test body elifs otherwise (← spanSince start)

/-- Reads a loop over the items of a value. -/
def forStatement : Parse Stmt := do
  let start ← currentSpan
  expectWord .forKw
  let first ← expectName
  let bindings ← repeatRead (fun acc => do
    if ← eatMark .comma then return .again (acc ++ [← expectName]) else return .done acc) [first]
  expectWord .inKw
  let iterable ← g.expression
  let filter ← if ← eatWord .whereKw then some <$> g.expression else pure none
  let _ ← eatMark .colon
  let body ← block g [.endKw]
  closeBlock "for" start
  return .forIn bindings iterable filter body (← spanSince start)

/-- Reads the header of a loop: an expression on its line is the condition when a colon follows it,
and belongs to the body when none does. -/
def loopTest : Parse (Option Expr) := do
  if !(← continuesLine) then return none
  if ← atMark .colon then return none
  tryRead do
    let e ← g.expression
    if ← atMark .colon then return some e else return none

def loopStatement : Parse Stmt := do
  let start ← currentSpan
  expectWord .loopKw
  let test ← loopTest g
  let _ ← eatMark .colon
  let body ← block g [.endKw]
  closeBlock "loop" start
  return .loop test body (← spanSince start)

/-- Reads the header of a catch clause: the name and the type, which may both be missing.  Without
parentheses a type must stand on the line of its colon. -/
def catchHeader : Parse (Option String × Option TypeExpr) := do
  if !(← continuesLine) then return (none, none)
  let parens ← eatMark .leftParen
  let binding ← match ← current with
    | .identifier name =>
      advance
      pure (some name)
    | _ => pure none
  let type ←
    if ← atMark .colon then
      let colon ← currentSpan
      let sameLine := !(← peek 1).isEof && (← peekSpan 1).line == colon.line
      if parens || sameLine then
        advance
        some <$> g.type
      else pure none
    else pure none
  if parens then expectMark .rightParen
  return (binding, type)

def tryStatement : Parse Stmt := do
  let start ← currentSpan
  expectWord .tryKw
  let _ ← eatMark .colon
  let body ← block g [.catchKw, .finallyKw, .endKw]
  let catches ← repeatRead (fun acc => do
    if ← atWord .catchKw then
      let here ← currentSpan
      advance
      let header ← catchHeader g
      let _ ← eatMark .colon
      let body ← block g [.catchKw, .finallyKw, .endKw]
      let clause : CatchClause Stmt := ⟨header.1, header.2, body, ← spanSince here⟩
      return .again (acc ++ [clause])
    else return .done acc) []
  let cleanup ←
    if ← eatWord .finallyKw then
      let _ ← eatMark .colon
      some <$> block g [.endKw]
    else pure none
  if catches.isEmpty && cleanup.isNone then
    failInvalid "try requires at least one catch or finally" start
  closeBlock "try" start
  return .attempt body catches cleanup (← spanSince start)

def throwStatement : Parse Stmt := do
  let start ← currentSpan
  expectWord .throwKw
  let value ← g.expression
  return .throw value (← spanSince start)

/-- Reads a deferred call. -/
def deferStatement : Parse Stmt := do
  let start ← currentSpan
  expectWord .deferKw
  let call ← g.expression
  return .defer call (← spanSince start)

/-- The channel of a receive: the expression must be a call of `recv` without arguments. -/
def receivedChannel (e : Expr) : Parse Expr := do
  match e with
  | .call (.member object "recv" _) _ [] _ => return object
  | _ => failInvalid "select case must receive with ch.recv()" e.span

/-- Reads the arm of a select case. -/
def selectArm : Parse (SelectArm Expr) := do
  if ← eatWord .closedKw then return .closed (← g.expression)
  else
    let bound ← if ← eatWord .letKw then pure true else eatWord .varKw
    let binding ←
      if bound then
        let name ← expectName
        expectMark .equal
        pure (some name)
      else pure none
    let e ← g.expression
    return .receive binding (← receivedChannel e)

def selectStatement : Parse Stmt := do
  let start ← currentSpan
  expectWord .selectKw
  let _ ← eatMark .colon
  let cases ← repeatRead (fun acc => do
    if ← atWord .caseKw then
      let here ← currentSpan
      advance
      let arm ← selectArm g
      let _ ← eatMark .colon
      let body ← block g [.caseKw, .endKw]
      let case : SelectCase Expr Stmt := ⟨arm, body, ← spanSince here⟩
      return .again (acc ++ [case])
    else return .done acc) []
  closeBlock "select" start
  return .select cases (← spanSince start)

/-- Reads what a switch case matches. -/
def casePattern : Parse (CasePattern Expr) := do
  let isType ←
    if ← atMark .leftParen then
      match ← peek 1 with
      | .identifier _ => pure ((← peek 2).isMark .colon)
      | _ => pure false
    else pure false
  if isType then
    advance
    let binding ← expectName
    expectMark .colon
    let type ← g.type
    expectMark .rightParen
    return .type binding type
  else
    let values ← repeatRead (fun acc => do
      let acc := acc ++ [← g.expression]
      if ← eatMark .comma then return .again acc else return .done acc) []
    return .values values

/-- The cases of a switch, and its default block. -/
structure SwitchParts where
  cases : List (SwitchCase Expr Stmt)
  otherwise : Option (List Stmt)

/-- Reads a switch; the default may stand anywhere, and the last one counts. -/
def switchStatement : Parse Stmt := do
  let start ← currentSpan
  expectWord .switchKw
  let subject ← g.expression
  let _ ← eatMark .colon
  let parts ← repeatRead (fun (acc : SwitchParts) => do
    if ← atWord .caseKw then
      let here ← currentSpan
      advance
      let pattern ← casePattern g
      let _ ← eatMark .colon
      let body ← block g [.caseKw, .defaultKw, .endKw]
      let case : SwitchCase Expr Stmt := ⟨pattern, body, ← spanSince here⟩
      return .again { acc with cases := acc.cases ++ [case] }
    else if ← eatWord .defaultKw then
      let _ ← eatMark .colon
      let body ← block g [.caseKw, .defaultKw, .endKw]
      return .again { acc with otherwise := some body }
    else return .done acc) ⟨[], none⟩
  closeBlock "switch" start
  return .switch subject parts.cases parts.otherwise (← spanSince start)

def importStatement : Parse Stmt := do
  let start ← currentSpan
  expectWord .importKw
  let name ← expectName
  let localName ← match ← current with
    | .identifier "as" =>
      advance
      some <$> expectName
    | _ => pure none
  return .importModule name localName (← spanSince start)

/-- Reads a statement at the level of its caller.  Access words in front of it mean nothing. -/
def statementHere : Parse Stmt := do
  let start ← currentSpan
  match ← current with
  | .keyword k =>
    match k with
    | .letKw | .varKw | .constKw | .finalKw => variableDecl g
    | .defKw => do return .function (← functionDecl g .required).1
    | .classKw | .abstractKw => classDecl g start false
    | .interfaceKw => interfaceDecl g start false
    | .enumKw => enumDecl g start false
    | .recordKw => recordDecl g
    | .sealedKw => sealedDecl g
    | .publicKw | .privateKw | .protectedKw | .staticKw =>
      advance
      g.statementHere
    | .ifKw => branchStatement g
    | .forKw => forStatement g
    | .loopKw => loopStatement g
    | .breakKw =>
      advance
      return .stop start
    | .continueKw =>
      advance
      return .next start
    | .returnKw => returnStatement g
    | .tryKw => tryStatement g
    | .throwKw => throwStatement g
    | .deferKw => deferStatement g
    | .selectKw => selectStatement g
    | .switchKw => switchStatement g
    | .importKw => importStatement
    | _ => expressionStatement g
  | .identifier _ =>
    if (← peek 1).isMark .colonEqual then shortDecl g else expressionStatement g
  | _ => expressionStatement g

end Grammar
end ScriptEngine
