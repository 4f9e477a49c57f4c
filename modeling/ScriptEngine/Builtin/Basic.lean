import ScriptEngine.Eval.Invoke
import ScriptEngine.Eval.Operators

/-!
# Builtin methods: names and arguments

Which methods the builtin types have, and how a builtin takes its arguments.
-/

namespace ScriptEngine
namespace Builtin

/-- The methods of nil and of truth values. -/
def scalarMethods : List String := ["toString", "equals"]

def stringMethods : List String :=
  ["length", "size", "isEmpty", "charAt", "indexOf", "lastIndexOf", "substring", "toUpperCase",
   "toLowerCase", "trim", "startsWith", "endsWith", "contains", "replace", "split", "repeat",
   "padStart", "padEnd", "chars", "toInt", "toFloat", "equals", "toString"]

def numberMethods : List String :=
  ["abs", "floor", "ceil", "round", "sqrt", "pow", "toInt", "toFloat", "toFixed", "toString",
   "equals"]

def arrayMethods : List String :=
  ["length", "size", "isEmpty", "get", "set", "push", "add", "pop", "shift", "unshift", "insert",
   "removeAt", "clear", "contains", "indexOf", "join", "slice", "concat", "reverse", "sort", "map",
   "filter", "reduce", "forEach", "find", "findIndex", "some", "every", "toString"]

def mapMethods : List String :=
  ["get", "set", "put", "has", "hasKey", "containsKey", "remove", "delete", "clear", "keys",
   "values", "entries", "size", "length", "isEmpty", "forEach", "toString"]

def collectionMethods : CollectionKind → List String
  | .list =>
    ["add", "push", "get", "set", "insert", "remove", "removeAt", "contains", "indexOf", "size",
     "length", "isEmpty", "clear", "toArray", "asArray", "forEach", "map", "filter", "sort",
     "toString"]
  | .set =>
    ["add", "remove", "contains", "size", "length", "isEmpty", "clear", "toArray", "asArray",
     "forEach", "toString"]
  | .deque =>
    ["addFirst", "addLast", "push", "removeFirst", "removeLast", "peekFirst", "peekLast", "get",
     "contains", "size", "length", "isEmpty", "clear", "toArray", "forEach", "toString"]
  | .map => mapMethods

def channelMethods : List String :=
  ["send", "recv", "tryRecv", "close", "isClosed", "len", "length", "capacity", "toString"]

def threadMethods : List String := ["join", "isAlive", "id", "toString"]

def futureMethods : List String :=
  ["then", "catch", "finally", "await", "getState", "complete", "completeExceptionally", "get",
   "getTimeout", "isDone", "cancel", "isCancelled", "toString"]

def instanceMethods : List String := ["toString", "equals", "hashCode", "getClass"]

/-- The methods that enum constants have besides. -/
def constantMethods : List String := ["name", "ordinal"]

def classMethods : List String := ["values", "valueOf", "name", "toString"]

def hasMethod (v : Value) (name : String) : Bool :=
  match v with
  | .str _ => stringMethods.contains name
  | .int _ | .float _ => numberMethods.contains name
  | .nil | .bool _ => scalarMethods.contains name
  | .array _ => arrayMethods.contains name
  | .map _ => mapMethods.contains name
  | .collection c => (collectionMethods c.kind).contains name
  | .channel _ _ => channelMethods.contains name
  | .thread _ => threadMethods.contains name
  | .future _ _ => futureMethods.contains name
  | .object o =>
    instanceMethods.contains name || (o.constant.isSome && constantMethods.contains name)
  | .classDef _ => classMethods.contains name
  | _ => false

/-- The number of things in a value. -/
def length? (h : Heap) : Value → Option Nat
  | .str s => some s.length
  | .array id => some (h.array id).size
  | .map id => some (h.map id).size
  | .collection c => some (h.collectionSize c)
  | .channel id _ => some (h.channel id).size
  | _ => none

/-- A number of things as a value. -/
def count (n : Nat) : Value := .int (Int64.ofNat n)

def argument (args : List Value) (i : Nat) : Value := args.getD i .nil

/-- Fails unless there are exactly so many arguments. -/
def takesExactly (args : List Value) (expected : Nat) : Except Cause Unit :=
  if args.length = expected then .ok () else .error (.arityOf expected args.length)

/-- Fails unless the number of arguments is between two. -/
def takesBetween (args : List Value) (low high : Nat) : Except Cause Unit :=
  if low ≤ args.length ∧ args.length ≤ high then .ok ()
  else .error (.arity s!"{low}..{high}" args.length)

def intAt (h : Heap) (args : List Value) (i : Nat) (what : String) : Except Cause Int64 :=
  match args[i]? with
  | some (.int n) => .ok n
  | some v => .error (.mismatch s!"Int for {what}" (h.typeName v))
  | none => .error (.arityOf (i + 1) args.length)

def floatAt (h : Heap) (args : List Value) (i : Nat) (what : String) :
    Except Cause Decimal.Double :=
  match args[i]? with
  | some v =>
    match v.asDouble? with
    | some x => .ok x
    | none => .error (.mismatch s!"Number for {what}" (h.typeName v))
  | none => .error (.arityOf (i + 1) args.length)

def stringAt (h : Heap) (args : List Value) (i : Nat) (what : String) : Except Cause String :=
  match args[i]? with
  | some (.str s) => .ok s
  | some v => .error (.mismatch s!"String for {what}" (h.typeName v))
  | none => .error (.arityOf (i + 1) args.length)

def firstCallback (h : Heap) (args : List Value) (what : String) : Except Cause Value :=
  match args with
  | [] => .error (.arityOf 1 0)
  | v :: _ =>
    if v.isCallable then .ok v else .error (.mismatch s!"Function for {what}" (h.typeName v))

/-- What a callback is given for an element: the element, and for declared functions its place. -/
def argsForElement (callee item : Value) (i : Nat) : List Value :=
  match callee with
  | .function _ _ => [item, count i]
  | _ => [item]

def unknownMethod (h : Heap) (v : Value) (name : String) : Cause :=
  .missingMember (h.typeName v) name

def callFor (E : Engine) (callee item : Value) (i : Nat) : Eval Value :=
  Eval.callback E callee (argsForElement callee item i)

/-- The results of a callback for each element. -/
def mapItems (E : Engine) (callee : Value) (items : List Value) : Eval (List Value) :=
  items.zipIdx.mapM fun p => callFor E callee p.1 p.2

/-- The elements for which a callback says yes. -/
def filterItems (E : Engine) (callee : Value) (items : List Value) : Eval (List Value) :=
  items.zipIdx.filterMapM fun p => do
    if (← callFor E callee p.1 p.2).isTruthy then pure (some p.1) else pure none

/-- Calls a callback for each element. -/
def visitItems (E : Engine) (callee : Value) (items : List Value) : Eval Unit :=
  items.zipIdx.forM fun p => do let _ ← callFor E callee p.1 p.2

/-- The first element, with its place, for which a callback answers as wanted. -/
def findItem (E : Engine) (callee : Value) (wanted : Bool) (items : List Value) :
    Eval (Option (Value × Nat)) :=
  items.zipIdx.findM? fun p => do
    let v ← callFor E callee p.1 p.2
    pure (v.isTruthy == wanted)

/-- The place of the first element that equals a value. -/
def position? (h : Heap) (items : List Value) (v : Value) : Option Nat :=
  items.findIdx? fun item => h.equals item v

def place : Option Nat → Value
  | some i => count i
  | none => .int (-1)

end Builtin
end ScriptEngine
