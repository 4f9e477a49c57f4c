import ScriptEngine.Object.Class

/-!
# Values

The values that programs compute with.  What has an identity is known by a number, under which the
heap holds its contents: two such values are the same exactly when their numbers are.
-/

namespace ScriptEngine

/-- The builtin collections. -/
inductive CollectionKind
  | list
  | set
  | map
  | deque
  deriving Repr, DecidableEq, Inhabited

def CollectionKind.name : CollectionKind → String
  | list => "List"
  | set => "Set"
  | map => "Map"
  | deque => "Deque"

/-- The two types of futures: those that a body settles and those that any code may settle. -/
inductive FutureKind
  | promise
  | completable
  deriving Repr, DecidableEq, Inhabited, Hashable

def FutureKind.name : FutureKind → String
  | promise => "Promise"
  | completable => "CompletableFuture"

/-- The builtin modules. -/
inductive Module
  | sys
  | math
  deriving Repr, DecidableEq, Inhabited, Hashable

def Module.name : Module → String
  | sys => "Sys"
  | math => "Math"

/-- The functions of one number that the `Math` module offers. -/
inductive MathFunction
  | floor | ceil | round | sqrt | sin | cos | tan | log | exp
  deriving Repr, DecidableEq, Inhabited, Hashable

def MathFunction.name : MathFunction → String
  | floor => "floor"
  | ceil => "ceil"
  | round => "round"
  | sqrt => "sqrt"
  | sin => "sin"
  | cos => "cos"
  | tan => "tan"
  | log => "log"
  | exp => "exp"

deriving instance Hashable for CollectionKind

/-- The builtin functions.  `resolve` and `reject` settle the future of a number. -/
inductive Native
  | print | println | str | int | float | bool | len | range | instanceOf
  | collection (kind : CollectionKind)
  | channel | async | promise | completable
  | resolve (future : Nat)
  | reject (future : Nat)
  | sysType | sysInstanceOf | sysSleep | sysTime | sysRandom
  | mathUnary (f : MathFunction)
  | mathAbs | mathPow | mathMin | mathMax | mathRandom
  deriving Repr, DecidableEq, Inhabited, Hashable

/-- The name of a builtin function. -/
def Native.name : Native → String
  | print => "print"
  | println => "println"
  | str => "str"
  | int => "int"
  | float => "float"
  | bool => "bool"
  | len => "len"
  | range => "range"
  | instanceOf | sysInstanceOf => "instanceof"
  | collection k => k.name
  | channel => "Channel"
  | async => "async"
  | promise => "Promise"
  | completable => "CompletableFuture"
  | resolve _ => "resolve"
  | reject _ => "reject"
  | sysType => "type"
  | sysSleep => "sleep"
  | sysTime => "time"
  | sysRandom | mathRandom => "random"
  | mathUnary f => f.name
  | mathAbs => "abs"
  | mathPow => "pow"
  | mathMin => "min"
  | mathMax => "max"

/-- An instance of a class, a constant of an enum or a value of a record. -/
structure Instance where
  id : Nat
  cls : ClassDef
  typeArgs : List TypeExpr
  constant : Option (String × Nat)

/-- A builtin collection; without type arguments it takes any element. -/
structure Collection where
  id : Nat
  kind : CollectionKind
  typeArgs : List TypeExpr

/-- A value. -/
inductive Value
  | nil
  | bool (b : Bool)
  | int (i : Int64)
  | float (x : Decimal.Double)
  | str (s : String)
  | array (id : Nat)
  | map (id : Nat)
  | function (id : Nat) (f : Function)
  | native (f : Native)
  /-- A method of an instance; its overloads are looked up from a class of the lineage. -/
  | instanceMethod (id : Nat) (receiver : Instance) (lookup : ClassDef) (name : String)
  | staticMethod (id : Nat) (cls : ClassDef) (name : String)
  | builtinMethod (id : Nat) (receiver : Value) (name : String)
  | classDef (c : ClassDef)
  | interfaceDef (i : Interface)
  | object (o : Instance)
  | collection (c : Collection)
  | thread (id : Nat)
  | channel (id : Nat) (element : Option TypeExpr)
  | future (id : Nat) (kind : FutureKind)
  | module (m : Module)

namespace Value

instance : Inhabited Value := ⟨nil⟩

def isNil : Value → Bool
  | nil => true
  | _ => false

def asDouble? : Value → Option Decimal.Double
  | float x => some x
  | int i => some (.ofInt64 i)
  | _ => none

/-- Whether a value counts as true: nil, false, zero and the empty string do not. -/
def isTruthy : Value → Bool
  | nil => false
  | bool b => b
  | int i => i != 0
  | float x => !x.isZero
  | str s => s != ""
  | _ => true

def isCallable : Value → Bool
  | function _ _ | native _ | instanceMethod _ _ _ _ | staticMethod _ _ _ | builtinMethod _ _ _
  | classDef _ => true
  | _ => false

/-- The short name of the type of a value. -/
def kindName : Value → String
  | nil => "Nil"
  | bool _ => "Bool"
  | int _ => "Int"
  | float _ => "Float"
  | str _ => "String"
  | array _ => "Array"
  | map _ => "Map"
  | function _ _ | native _ | instanceMethod _ _ _ _ | staticMethod _ _ _
  | builtinMethod _ _ _ => "Function"
  | classDef c => c.name
  | interfaceDef i => i.name
  | object o => o.cls.name
  | collection c => c.kind.name
  | thread _ => "Thread"
  | channel _ _ => "Channel"
  | future _ k => k.name
  | module m => m.name

end Value

/-- A thrown value with the place of the throw, if it is known. -/
structure Exception where
  value : Value
  span : Option Span

/-- How a future stands. -/
inductive Settlement
  | pending
  | fulfilled (v : Value)
  | rejected (e : Exception)
  | cancelled

/-- Whether a future is still open. -/
def Settlement.isPending : Settlement → Bool
  | pending => true
  | _ => false

/-- The word for how a future stands. -/
def Settlement.word : Settlement → String
  | pending => "pending"
  | fulfilled _ => "fulfilled"
  | rejected _ => "rejected"
  | cancelled => "cancelled"

end ScriptEngine
