import ScriptEngine.Grammar.Types

/-!
# Reading expressions

Binary operators are read by precedence climbing.  An operator between operands, an argument list
and an index must start on the line of the expression they apply to, so a line that begins with a
minus sign or a parenthesis starts a statement of its own.

Blocks, parameters and arguments are pieces that statements and declarations share.
-/

namespace ScriptEngine
namespace Grammar

variable (g : Reader)

/-! ### Blocks and parameters -/

/-- Reads statements up to one of the given words, which is left in front. -/
def block (terminators : List Keyword) : Parse (List Stmt) := do
  repeatRead (fun acc => do
    if ← atEof then return .done acc
    if ← atAnyWord terminators then return .done acc
    if ← eatMark .semicolon then return .again acc
    return .again (acc ++ [← g.statement])) []

/-- Reads parameters in parentheses.  Only the last may be variadic; the dots may stand before or
after its type. -/
def params : Parse (List Param) := do
  expectMark .leftParen
  let ps ← repeatRead (fun acc => do
    if ← atMark .rightParen then return .done acc
    let start ← currentSpan
    let name ← expectName
    let dotsFirst ← eatMark .dotDotDot
    let type ← optionalType g
    let dotsLast ← eatMark .dotDotDot
    if (acc.getLast?.map Param.variadic).getD false then
      failInvalid "variadic parameter must be last" start
    let acc := acc ++ [⟨name, type, dotsFirst || dotsLast, ← spanSince start⟩]
    if ← eatMark .comma then return .again acc else return .done acc) []
  expectMark .rightParen
  return ps

/-- Reads call arguments in parentheses. -/
def arguments : Parse (List Expr) := do
  expectMark .leftParen
  let args ← repeatRead (fun acc => do
    if ← atMark .rightParen then return .done acc
    let acc := acc ++ [← g.expression]
    if ← eatMark .comma then return .again acc else return .done acc) []
  expectMark .rightParen
  return args

/-! ### Operators -/

/-- The levels of binary operators, from the loosest. -/
def conditionalLevel : Nat := 1

/-- The level of an operator that stands between operands. -/
def operatorLevel? : Token → Option Nat
  | .keyword .instanceofKw => some 5
  | .mark m =>
    match m with
    | .question => some conditionalLevel
    | .pipePipe => some 2
    | .ampAmp => some 3
    | .equalEqual | .bangEqual => some 4
    | .less | .lessEqual | .greater | .greaterEqual => some 5
    | .dotDotDot => some 6
    | .plus | .minus => some 7
    | .star | .slash | .percent => some 8
    | _ => none
  | _ => none

/-- The operator of a mark that evaluates both operands. -/
def binaryOp? : Mark → Option BinaryOp
  | .plus => some .add
  | .minus => some .subtract
  | .star => some .multiply
  | .slash => some .divide
  | .percent => some .modulo
  | .equalEqual => some .equal
  | .bangEqual => some .notEqual
  | .less => some .less
  | .lessEqual => some .lessEqual
  | .greater => some .greater
  | .greaterEqual => some .greaterEqual
  | _ => none

/-- Reads what an operator of the given level adds to the expression on its left. -/
def operatorTail (left : Expr) (level : Nat) : Parse (Round Expr Expr) := do
  let start := left.span
  match ← current with
  | .mark .question =>
    advance
    let yes ← g.expression
    expectMark .colon
    let no ← g.operators conditionalLevel
    return .again (.conditional left yes no (← spanSince start))
  | .keyword .instanceofKw =>
    advance
    let target ← g.type
    return .again (.instanceOf left target (← spanSince start))
  | .mark .dotDotDot =>
    advance
    let stop ← g.operators (level + 1)
    return .again (.range left stop (← spanSince start))
  | .mark .ampAmp =>
    advance
    let right ← g.operators (level + 1)
    return .again (.logical .and left right (← spanSince start))
  | .mark .pipePipe =>
    advance
    let right ← g.operators (level + 1)
    return .again (.logical .or left right (← spanSince start))
  | .mark m =>
    match binaryOp? m with
    | some op =>
      advance
      let right ← g.operators (level + 1)
      return .again (.binary op left right (← spanSince start))
    | none => return .done left
  | _ => return .done left

/-- One round of precedence climbing.  The word `instanceof` before a parenthesis is a function. -/
def operatorRound (least : Nat) (left : Expr) : Parse (Round Expr Expr) := do
  let token ← current
  match operatorLevel? token with
  | none => return .done left
  | some level =>
    if level < least then return .done left
    else if !(← continuesLine) then return .done left
    else if token.isKeyword .instanceofKw && (← peek 1).isMark .leftParen then return .done left
    else operatorTail g left level

/-- Reads an expression whose operators bind at least as tightly as a level. -/
def operatorsFrom (least : Nat) : Parse Expr := do
  let left ← g.unary
  repeatRead (operatorRound g least) left

/-- Reads a full expression. -/
def expressionHere : Parse Expr := operatorsFrom g conditionalLevel

/-- Reads the name of a member; some reserved words may be one. -/
def accessedName : Parse String := do
  match (← current).memberWord? with
  | some text =>
    advance
    return text
  | none => expectName

/-- Looks ahead from an opening parenthesis to the one that closes it, and tells whether an arrow
follows. -/
def lambdaAhead : Nat → List LocatedToken → Bool
  | _, [] => false
  | depth, (t, _) :: r =>
    match t with
    | .mark .leftParen => lambdaAhead (depth + 1) r
    | .mark .rightParen =>
      if depth ≤ 1 then
        match r with
        | (u, _) :: _ => u.isMark .fatArrow || u.isMark .arrow
        | [] => false
      else lambdaAhead (depth - 1) r
    | .eof => false
    | _ => lambdaAhead depth r

def lambda : Parse Expr := do
  let start ← currentSpan
  let ps ← match ← current with
    | .identifier name =>
      advance
      pure [(⟨name, none, false, start⟩ : Param)]
    | _ => params g
  let returns ← if ← eatMark .arrow then some <$> g.type else pure none
  expectMark .fatArrow
  let body ←
    if ← atWord .doKw then
      let opened ← currentSpan
      advance
      let statements ← block g [.endKw]
      closeBlock "do" opened
      pure (LambdaBody.block statements)
    else LambdaBody.expr <$> g.expression
  return .lambda ps returns body (← spanSince start)

/-- Reads the tokens of an embedded expression, all of them, apart from the text around it. -/
def embedded (tokens : List LocatedToken) : Parse Expr := do
  let whole : Parse Expr := do
    let e ← g.expression
    unless ← atEof do failExpecting [.mark .rightBrace]
    return e
  match whole (State.ofTokens tokens) with
  | .ok e _ => return e
  | .error err _ => throw err

def templateParts : List TemplatePart → Parse (List (StringPart Expr))
  | [] => return []
  | .text s :: ps => do
    return .text s :: (← templateParts ps)
  | .hole ts :: ps => do
    let e ← embedded g ts
    return .expr e :: (← templateParts ps)

def arrayLiteral : Parse Expr := do
  let start ← currentSpan
  expectMark .leftBracket
  let elements ← repeatRead (fun acc => do
    if ← atMark .rightBracket then return .done acc
    let acc := acc ++ [← g.expression]
    if ← eatMark .comma then return .again acc else return .done acc) []
  expectMark .rightBracket
  return .array elements (← spanSince start)

/-- Reads the key of a map literal; a bare name is a string. -/
def mapKey : Parse Expr := do
  match ← current with
  | .identifier name =>
    if (← peek 1).isMark .colon then
      let span ← currentSpan
      advance
      return .string name span
    else g.expression
  | _ => g.expression

def mapLiteral : Parse Expr := do
  let start ← currentSpan
  expectMark .leftBrace
  let entries ← repeatRead (fun acc => do
    if ← atMark .rightBrace then return .done acc
    let key ← mapKey g
    expectMark .colon
    let value ← g.expression
    let acc := acc ++ [(key, value)]
    if ← eatMark .comma then return .again acc else return .done acc) []
  expectMark .rightBrace
  return .map entries (← spanSince start)

/-- Reads the start or the joining of a thread. -/
def threadExpr : Parse Expr := do
  let start ← currentSpan
  expectWord .threadKw
  if ← eatWord .joinKw then
    let handle ← g.unary
    return .threadJoin handle (← spanSince start)
  expectWord .spawnKw
  expectWord .doKw
  let body ← block g [.endKw]
  closeBlock "thread spawn" start
  return .threadSpawn body (← spanSince start)

/-- Reads the creation of a channel. -/
def channelExpr : Parse Expr := do
  let start ← currentSpan
  expectWord .channelKw
  let element ←
    if ← eatMark .leftBracket then
      let t ← g.type
      expectMark .rightBracket
      pure (some t)
    else pure none
  let args ← arguments g
  if 1 < args.length then
    failInvalid "channel takes at most one capacity argument" (← spanSince start)
  return .channel element args.getLast? (← spanSince start)

def named (name : String) (start : Span) : Parse Expr := do
  if (← peek 1).isMark .fatArrow then lambda g
  else
    advance
    let callee := Expr.identifier name start
    if ← atMark .less then
      if ← continuesLine then
        if let some typeArgs ← callTypeArgs? g then
          let args ← arguments g
          return .call callee typeArgs args (← spanSince start)
    return callee

/-- Reads an expression that starts with a parenthesis. -/
def parenthesized : Parse Expr := do
  if lambdaAhead 0 (← get).rest then lambda g
  else
    advance
    let e ← g.expression
    expectMark .rightParen
    return e

/-- Reads the simplest expressions. -/
def primary : Parse Expr := do
  let start ← currentSpan
  let literal (e : Expr) : Parse Expr := do
    advance
    return e
  let failHere : Parse Expr := do
    let e ← unexpected [.name]
    throw { e with suggestion := some "Expected an expression" }
  match ← current with
  | .int n => literal (.int n start)
  | .float x => literal (.float x start)
  | .string s => literal (.string s start)
  | .template parts =>
    advance
    return .interpolated (← templateParts g parts) start
  | .identifier name => named g name start
  | .keyword k =>
    match k with
    | .trueKw => literal (.bool true start)
    | .falseKw => literal (.bool false start)
    | .nilKw => literal (.nil start)
    | .thisKw => literal (.this start)
    | .superKw => literal (.super start)
    | .instanceofKw =>
      if (← peek 1).isMark .leftParen then literal (.identifier "instanceof" start) else failHere
    | .threadKw => threadExpr g
    | .channelKw => channelExpr g
    | _ => failHere
  | .mark m =>
    match m with
    | .leftParen => parenthesized g
    | .leftBracket => arrayLiteral g
    | .leftBrace => mapLiteral g
    | _ => failHere
  | .eof => failHere

/-- Reads what may follow a simple expression: members, calls and indices. -/
def accessRound (e : Expr) : Parse (Round Expr Expr) := do
  let start := e.span
  match ← current with
  | .mark .dot =>
    advance
    let property ← accessedName
    return .again (.member e property (← spanSince start))
  | .mark .leftParen =>
    if ← continuesLine then
      let args ← arguments g
      return .again (.call e [] args (← spanSince start))
    else return .done e
  | .mark .leftBracket =>
    if ← continuesLine then
      advance
      let i ← g.expression
      expectMark .rightBracket
      return .again (.index e i (← spanSince start))
    else return .done e
  | _ => return .done e

/-- Reads a simple expression with what follows it. -/
def access : Parse Expr := do
  let e ← primary g
  repeatRead (accessRound g) e

/-- Reads an expression without binary operators. -/
def unaryExpr : Parse Expr := do
  let start ← currentSpan
  let operand (op : UnaryOp) : Parse Expr := do
    advance
    let e ← nested g.unary
    return .unary op e (← spanSince start)
  match ← current with
  | .mark .minus => operand .negate
  | .mark .bang => operand .not
  | _ => access g

end Grammar
end ScriptEngine
