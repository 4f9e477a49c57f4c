import ScriptEngine.Eval.Access

/-!
# Expressions

The value of an expression in a scope.
-/

namespace ScriptEngine
namespace Eval

/-- The value of a name: the nearest binding or, failing that, the module it was imported for. -/
def lookupName (h : Heap) (env : Env) (name : String) : Except Cause Value :=
  match h.scopes.lookup env name with
  | some v => .ok v
  | none =>
    match (h.scopes.importedAs env name).bind (h.scopes.lookup env) with
    | some v => .ok v
    | none => .error (.undefinedName name)

def evalList (E : Engine) (env : Env) (es : List Expr) : Eval (List Value) :=
  es.mapM fun e => E.eval e env

/-- The text of an interpolated string after what is already written. -/
def interpolate (E : Engine) (env : Env) (written : String) :
    List (StringPart Expr) → Eval String
  | [] => pure written
  | .text s :: rest => interpolate E env (written ++ s) rest
  | .expr e :: rest => do
    let v ← E.eval e env
    let s ← E.text v
    interpolate E env (written ++ s) rest

/-- The entries of a map literal after those of a map. -/
def evalEntries (E : Engine) (env : Env) (m : KeyedMap) : List (Expr × Expr) → Eval KeyedMap
  | [] => pure m
  | (k, v) :: rest => do
    let key ← E.eval k env
    let value ← E.eval v env
    let hashed := (← heap).key key
    evalEntries E env (m.insert hashed key value).2 rest

def channelCapacity (h : Heap) (v : Value) : Except Cause Nat :=
  match v with
  | .int n =>
    if 0 ≤ n.toInt then .ok n.toInt.toNat
    else .error (.type s!"channel capacity must be a non-negative Int, got {n}")
  | v => .error (.type s!"channel capacity must be a non-negative Int, got {h.display v}")

/-- The integers between two values. -/
def rangeOf (h : Heap) (first last : Value) : Except Cause (Array Value) :=
  match first, last with
  | .int a, .int b => rangeValues a b
  | a, b => .error (.type s!"range bounds must be Int, got {h.typeName a} and {h.typeName b}")

def makeLambda (ps : List Param) (returns : Option TypeExpr) (body : LambdaBody Expr Stmt)
    (env : Env) : Eval Value :=
  change fun h =>
    let r := h.newNumber
    (.function r.1
      { name := "<lambda>"
        typeParams := []
        params := ps
        returns := returns.map TypeExpr.canonical
        body := body
        closure := env }, r.2)

def valueOfCall (E : Engine) (callee : Expr) (typeArgs : List TypeExpr) (args : List Expr)
    (site : Span) (env : Env) : Eval Value := do
  match callee with
  | .super _ => constructAbove E (← evalList E env args) env site
  | .member (.super _) name _ => callAbove E name (← evalList E env args) env site
  | .member object name _ => do
    let v ← E.eval object env
    let vs ← evalList E env args
    callMember E v name vs typeArgs env site
  | e => do
    let f ← E.eval e env
    let vs ← evalList E env args
    E.call f vs typeArgs site

def evalExpr (E : Engine) (e : Expr) (env : Env) : Eval Value := do
  match e with
  | .int i _ => pure (.int i)
  | .float x _ => pure (.float x)
  | .string s _ => pure (.str s)
  | .bool b _ => pure (.bool b)
  | .nil _ => pure .nil
  | .interpolated parts _ => do pure (.str (← interpolate E env "" parts))
  | .identifier name _ => ofExcept (lookupName (← heap) env name)
  | .this _ =>
    match (← heap).scopes.receiver env with
    | some r => pure (.object r.this)
    | none => fault (.other "'this' used outside of a method")
  | .super _ => fault (.other "'super' must be called or followed by a member")
  | .array es _ => do makeArray (← evalList E env es)
  | .map entries _ => do
    let m ← evalEntries E env .empty entries
    change fun h => h.newMap m
  | .unary .not a _ => do pure (.bool !(← E.eval a env).isTruthy)
  | .unary .negate a _ => do negate (← E.eval a env)
  | .binary op a b _ => do
    let left ← E.eval a env
    let right ← E.eval b env
    binaryOp E op left right
  | .logical .and a b _ =>
    if (← E.eval a env).isTruthy then do pure (.bool (← E.eval b env).isTruthy)
    else pure (.bool false)
  | .logical .or a b _ =>
    if (← E.eval a env).isTruthy then pure (.bool true)
    else do pure (.bool (← E.eval b env).isTruthy)
  | .conditional test yes no _ =>
    if (← E.eval test env).isTruthy then E.eval yes env else E.eval no env
  | .call callee typeArgs args site => valueOfCall E callee typeArgs args site env
  | .member (.super _) name _ => memberAbove name env
  | .member object name _ => do readMember (← E.eval object env) name env
  | .index object key _ => do
    let v ← E.eval object env
    let k ← E.eval key env
    readElement v k
  | .lambda ps returns body _ => makeLambda ps returns body env
  | .threadSpawn body _ => Builtin.startThread body env
  | .threadJoin handle _ =>
    match ← E.eval handle env with
    | .thread id => Builtin.awaitThread id
    | v => fault (.mismatch "Thread" ((← heap).typeName v))
  | .channel element capacity _ => do
    let limit ← match capacity with
      | some e => do
        let v ← E.eval e env
        pure (some (← ofExcept (channelCapacity (← heap) v)))
      | none => pure none
    change fun h => h.newChannel (element.map TypeExpr.canonical) limit
  | .instanceOf value target _ => do
    let v ← E.eval value env
    pure (.bool ((← heap).instanceOf v target.canonical))
  | .range first last _ => do
    let a ← E.eval first env
    let b ← E.eval last env
    let items ← ofExcept (rangeOf (← heap) a b)
    change fun h => h.newArray items

end Eval
end ScriptEngine
