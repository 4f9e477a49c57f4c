import ScriptEngine.Heap.Display
import ScriptEngine.Typing.Subtype

/-!
# The types of values

Types are checked when values meet them.

* `runtimeType` is the type of a value, with the type arguments that were given or, for collections
  without any, those that all elements share.
* `instanceOf` is the test of the language; `conforms` is the looser one for storing a value: nil
  goes everywhere, an integer where a float is declared, and unknown names ask for nothing.
* `bindingsAt` tells what the type parameters of an ancestor stand for in an instance.
* `typeArgsFrom` and `boundFault?` find and check type arguments of calls.
-/

namespace ScriptEngine

/-- The type arguments of a layer, carried up a list of ancestors to the first of a name. -/
def ClassLayer.bindingsAlong (owner : String) (args : List TypeExpr) (l : ClassLayer) :
    List ClassLayer → Bindings
  | [] => if l.name == owner then pairParams l.typeParams args else []
  | next :: rest =>
    let bs := pairParams l.typeParams args
    if l.name == owner then bs
    else bindingsAlong owner (l.parentArgs.map (TypeExpr.substitute bs)) next rest

/-- What the type parameters of an ancestor stand for in an instance. -/
def Instance.bindingsAt (o : Instance) (owner : String) : Bindings :=
  o.cls.own.bindingsAlong owner o.typeArgs o.cls.ancestors

/-- Whether every type argument is the type of all values. -/
def areAllAny (args : List TypeExpr) : Bool := args.all (·.isAny)

/-- The type arguments that an ancestor of a name is given, unless they say nothing. -/
def ClassLayer.argsAlong (target : String) (args : List TypeExpr) (l : ClassLayer) :
    List ClassLayer → Option (List TypeExpr)
  | [] => if l.name == target && !areAllAny args then some args else none
  | next :: rest =>
    if l.name == target then if areAllAny args then none else some args
    else
      argsAlong target (l.parentArgs.map (TypeExpr.substitute (pairParams l.typeParams args)))
        next rest

namespace Heap

variable (h : Heap)

/-- The elements that speak for each type argument of a value. -/
def elementsByArg : Value → Option (List (List Value))
  | .array id => some [(h.array id).toList]
  | .map id => some [(h.map id).keys, (h.map id).values]
  | .collection c =>
    match h.collection c.id with
    | .items xs => some [xs.toList]
    | .entries m => some [m.keys, m.values]
  | _ => none

/-- The type that several types share: their union, the two number types being one. -/
def commonType (types : List TypeExpr) : Option TypeExpr :=
  match types.foldl (fun seen t => if seen.contains t then seen else seen ++ [t]) [] with
  | [] => none
  | [t] => some t
  | ts => if TypeExpr.isIntOrFloat ts then some (.simple "Number") else some (.union ts)

/-- The type of a value, down to a depth. -/
def runtimeTypeWithin : Nat → Value → TypeExpr
  | 0, _ => .any
  | n + 1, v =>
    match v with
    | .object o =>
      match o.cls.kind with
      | .cls => if areAllAny o.typeArgs then .simple o.cls.name else .named o.cls.name o.typeArgs
      | _ => .simple o.cls.name
    | .collection c =>
      if !c.typeArgs.isEmpty && !areAllAny c.typeArgs then .named c.kind.name c.typeArgs
      else
        match h.elementsByArg v with
        | some slots =>
          .named c.kind.name
            ((slots.mapM fun slot => commonType (slot.map (runtimeTypeWithin n))).getD [])
        | none => .simple c.kind.name
    | .channel _ (some t) => .named "Channel" [t]
    | .channel _ none => .simple "Channel"
    | v => .simple v.kindName

def runtimeType (v : Value) : TypeExpr := h.runtimeTypeWithin h.depthLimit v

/-- The type that values share; nothing when there are none. -/
def elementType? (vs : List Value) : Option TypeExpr := commonType (vs.map h.runtimeType)

/-- The mark of a variance in the name of a type. -/
def varianceMark : Variance → String
  | .invariant => ""
  | .input => "in "
  | .output => "out "

/-- The texts of the type arguments of an instance, each with the variance of its parameter. -/
def argTexts : List TypeParam → List TypeExpr → List String
  | _, [] => []
  | [], a :: as => a.render :: argTexts [] as
  | p :: ps, a :: as => (varianceMark p.variance ++ a.render) :: argTexts ps as

def typeName (v : Value) : String :=
  match v with
  | .object o =>
    if o.cls.kind == .cls && !o.typeArgs.isEmpty then
      o.cls.name ++ "<" ++ ", ".intercalate (argTexts o.cls.own.typeParams o.typeArgs) ++ ">"
    else (h.runtimeType v).render
  | .classDef c => s!"{c.kind.word} {c.name}"
  | .interfaceDef i => s!"Interface {i.name}"
  | v => (h.runtimeType v).render

/-- Whether a value is of a type of a name, whatever the type arguments. -/
def headFits (v : Value) (name : String) : Bool :=
  name == "Any" ||
    match v with
    | .nil => name == "Nil"
    | .bool _ => name == "Bool"
    | .int _ => name == "Int" || name == "Number"
    | .float _ => name == "Float" || name == "Number"
    | .str _ => name == "String"
    | .array _ => name == "Array"
    | .map _ => name == "Map"
    | .function _ _ | .native _ | .instanceMethod _ _ _ _ | .staticMethod _ _ _
    | .builtinMethod _ _ _ => name == "Function"
    | .object o => o.cls.isA name
    | .collection c => c.kind.name == name
    | .thread _ => name == "Thread"
    | .channel _ _ => name == "Channel"
    | .future _ k => k.name == name
    | .classDef _ => name == "Class"
    | .interfaceDef _ => name == "Interface"
    | .module m => m.name == name

/-- The type arguments that a value was given, as a type of a name sees them. -/
def argsSeenAs (v : Value) (target : String) : Option (List TypeExpr) :=
  match v with
  | .object o => o.cls.own.argsAlong target o.typeArgs o.cls.ancestors
  | .collection c => if areAllAny c.typeArgs then none else some c.typeArgs
  | .channel _ element => element.map ([·])
  | _ => none

/-- Whether a value is of a named type: the names must agree, and the type arguments must be those
that the value was given or, without any, fit all of its elements. -/
def namedInstance (name : String) (args : List TypeExpr)
    (slotsMatch : List (List Value) → Bool) (v : Value) : Bool :=
  headFits v (canonicalName name) &&
    (args.isEmpty ||
      match argsSeenAs v (canonicalName name) with
      | some actual => Typing.argsMatch h.registry actual args
      | none => ((h.elementsByArg v).map slotsMatch).getD true)

mutual

def instanceOf (v : Value) : TypeExpr → Bool
  | .union ms => instanceOfAny v ms
  | .wildcard => true
  | .boundedAbove b => instanceOf v b
  | .boundedBelow b => Typing.isSubtype h.registry b (h.runtimeType v)
  | .named name args => h.namedInstance name args (fun slots => slotsMatch slots args) v

def instanceOfAny (v : Value) : List TypeExpr → Bool
  | [] => false
  | m :: ms => instanceOf v m || instanceOfAny v ms

/-- Whether the elements of each slot are instances of its type. -/
def slotsMatch (slots : List (List Value)) : List TypeExpr → Bool
  | [] => slots.isEmpty
  | t :: ts =>
    match slots with
    | [] => false
    | s :: rest => s.all (fun v => instanceOf v t) && slotsMatch rest ts

end

def builtinTypes : List String :=
  ["Int", "Float", "Number", "String", "Bool", "Nil", "Void", "Any", "Array", "Map", "Function",
   "List", "Set", "Deque", "Thread", "Channel", "Promise", "CompletableFuture", "Class",
   "Interface"]

/-- Whether a name is that of a builtin or a declared type. -/
def isKnownType (name : String) : Bool := builtinTypes.contains name || h.registry.contains name

/-- Whether a value may be stored under a type without arguments of its own. -/
def plainConforms (v : Value) (name : String) : Bool :=
  let canonical := canonicalName name
  if canonical == "Any" then true
  else if canonical == "Void" then v.isNil
  else if canonical == "Float" then
    match v with
    | .float _ | .int _ => true
    | _ => false
  else h.instanceOf v (.named name [])

mutual

/-- Whether a value other than nil may be stored under a type. -/
def fits (v : Value) : TypeExpr → Bool
  | .named name args =>
    if !h.isKnownType (canonicalName name) then true
    else if args.isEmpty then h.plainConforms v name
    else h.instanceOf v (.named name args)
  | .union ms => fitsAny v ms
  | t => h.instanceOf v t

/-- Whether a value other than nil may be stored under one of several types. -/
def fitsAny (v : Value) : List TypeExpr → Bool
  | [] => false
  | m :: ms => fits v m || fitsAny v ms

end

def conforms (v : Value) (declared : TypeExpr) (bs : Bindings) : Bool :=
  v.isNil || h.fits v (declared.substitute bs)

/-- The argument of the first plain parameter whose type is a type parameter. -/
def argumentFor (param : String) : List Param → List Value → Option Value
  | p :: ps, v :: vs =>
    let here :=
      !p.variadic &&
        match p.type with
        | some (.named n []) => n == param
        | _ => false
    if here then some v else argumentFor param ps vs
  | _, _ => none

/-- The type arguments that a call leaves to its arguments. -/
def typeArgsFrom (typeParams : List TypeParam) (ps : List Param) (args : List Value) :
    List TypeExpr :=
  typeParams.map fun t =>
    match argumentFor t.name ps args with
    | some v => if v.isNil then .any else h.runtimeType v
    | none => .any

/-- The fault of type arguments outside the bounds of their parameters. -/
def boundFault? : List TypeParam → List TypeExpr → Option Cause
  | p :: ps, a :: as =>
    match p.bound with
    | some b =>
      if a.isAny || Typing.isSubtype h.registry a b then boundFault? ps as
      else some (.bound a.render b.render)
    | none => boundFault? ps as
  | _, _ => none

def checkFault? (v : Value) (declared : TypeExpr) (bs : Bindings) (what : String) :
    Option Cause :=
  if h.conforms v declared bs then none
  else
    some (.type s!"{what}: expected {(declared.substitute bs).render}, got {h.typeName v}")

end Heap
end ScriptEngine
