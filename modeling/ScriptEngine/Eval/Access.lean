import ScriptEngine.Builtin.Globals

/-!
# Members and elements

Reading and writing what values hold.

* `readMember` and `writeMember` go by a name, `readElement` and `writeElement` by a key.
* `applyValue` calls a value, `callMember` a member of a value.
-/

namespace ScriptEngine
namespace Eval

def bindBuiltin (receiver : Value) (name : String) : Eval Value :=
  change fun h =>
    let r := h.newNumber
    (.builtinMethod r.1 receiver name, r.2)

def bindMethod (o : Instance) (lookup : ClassDef) (name : String) : Eval Value :=
  change fun h =>
    let r := h.newNumber
    (.instanceMethod r.1 o lookup name, r.2)

def bindStatic (c : ClassDef) (name : String) : Eval Value :=
  change fun h =>
    let r := h.newNumber
    (.staticMethod r.1 c name, r.2)

/-- Fails unless code may use a declared field of a name. -/
def checkField (o : Instance) (name : String) (env : Env) : Eval Unit :=
  match o.cls.fieldNamed name with
  | some (declaring, f) => requireAccess f.visibility name declaring.name env
  | none => pure ()

def getInstanceMember (o : Instance) (name : String) (env : Env) : Eval Value := do
  match (← heap).field? o name with
  | some v => do
    checkField o name env
    pure v
  | none =>
    match o.cls.usableMethods name with
    | m :: _ => do
      requireAccess m.visibility name m.owner env
      bindMethod o o.cls name
    | [] =>
      if Builtin.hasMethod (.object o) name then bindBuiltin (.object o) name
      else fault (.missingMember o.cls.name name)

def getClassMember (c : ClassDef) (name : String) : Eval Value := do
  match (← heap).classStatic? c name with
  | some v => pure v
  | none =>
    if !(c.staticMethodsNamed name).isEmpty then bindStatic c name
    else if Builtin.hasMethod (.classDef c) name then bindBuiltin (.classDef c) name
    else fault (.missingMember c.name name)

/-- A member of a value that is neither an instance nor a definition, a map or a module. -/
def getBuiltinMember (v : Value) (name : String) : Eval Value := do
  let h ← heap
  match if name == "length" || name == "size" then Builtin.length? h v else none with
  | some n => pure (Builtin.count n)
  | none =>
    if Builtin.hasMethod v name then bindBuiltin v name
    else fault (.missingMember v.kindName name)

def readMember (v : Value) (name : String) (env : Env) : Eval Value := do
  match v with
  | .object o => getInstanceMember o name env
  | .classDef c => getClassMember c name
  | .interfaceDef i =>
    match (← heap).interfaceStatic? i name with
    | some v => pure v
    | none => fault (.missingMember i.name name)
  | .module m =>
    match m.member? name with
    | some v => pure v
    | none => fault (.missingMember m.name name)
  | .map id =>
    match ((← heap).map id).get? (.str name) with
    | some v => pure v
    | none => if Builtin.hasMethod v name then bindBuiltin v name else pure .nil
  | v => getBuiltinMember v name

/-- The fault of an assignment to a field that must not change any more. -/
def fieldFault? (h : Heap) (o : Instance) (f : FieldDef) (name : String) : Option Cause :=
  if f.kind.isImmutable && !(h.object o.id).constructing then
    some (.immutable (if f.kind == .constBinding then "constant" else "final field") name)
  else none

def assignField (o : Instance) (name : String) (v : Value) (env : Env) : Eval Unit := do
  if o.cls.kind == .record then fault (.immutable "record component" name)
  match o.cls.fieldNamed name with
  | some (declaring, f) => do
    requireAccess f.visibility name declaring.name env
    unlessFault (fieldFault? (← heap) o f name)
    checkOption v f.type (o.bindingsAt declaring.name) s!"field '{name}' of {o.cls.name}"
  | none => pure ()
  modify (·.setField o name v)

def assignStatic (c : ClassDef) (name : String) (v : Value) : Eval Unit := do
  match (← heap).staticHome? c name with
  | none => fault (.missingMember c.name name)
  | some (owner, slot) => do
    if slot.kind.isImmutable then fault (.immutable "constant" s!"{owner.name}.{name}")
    checkOption v slot.type [] s!"static field '{name}' of {owner.name}"
    modify (·.setStatic owner.id name { slot with value := v })

def writeMember (target : Value) (name : String) (v : Value) (env : Env) : Eval Unit := do
  match target with
  | .object o => assignField o name v env
  | .classDef c => assignStatic c name v
  | .interfaceDef i => fault (.immutable "interface field" s!"{i.name}.{name}")
  | .map id => modify (·.insertInMap id (.str name) (.str name) v)
  | other =>
    fault (.type s!"cannot set attribute '{name}' on {(← heap).typeName other}")

/-- The element at an index of a sequence. -/
def elementAt (h : Heap) (items : Array Value) (key : Value) : Except Cause Value :=
  (indexOf h key items.size).map fun i => items.getD i .nil

def characterAt (h : Heap) (s : String) (key : Value) : Except Cause Value :=
  (indexOf h key s.length).map fun i => .str (Text.slice s i 1)

def elementOf (h : Heap) (v key : Value) : Except Cause Value :=
  match v with
  | .array id => elementAt h (h.array id) key
  | .str s => characterAt h s key
  | .map id => .ok (((h.map id).get? (h.key key)).getD .nil)
  | .collection c =>
    match h.collection c.id with
    | .items xs => elementAt h xs key
    | .entries m => .ok ((m.get? (h.key key)).getD .nil)
  | v => .error (.type s!"'{h.typeName v}' object is not indexable")

def readElement (v key : Value) : Eval Value := do ofExcept (elementOf (← heap) v key)

def assignElement (c : Collection) (key v : Value) : Eval Unit := do
  Builtin.checkElement c (some key) v
  match c.kind with
  | .map => do
    let k := (← heap).key key
    Builtin.changeEntries c fun m => (m.insert k key v).2
  | _ => do
    let i ← Builtin.itemPlace c key
    Builtin.changeItems c (·.setIfInBounds i v)

def writeElement (target key v : Value) : Eval Unit := do
  match target with
  | .array id => do
    let h ← heap
    let i ← ofExcept (indexOf h key (h.array id).size)
    modify (·.modifyArray id (·.setIfInBounds i v))
  | .map id => modify fun h => h.insertInMap id (h.key key) key v
  | .collection c =>
    if c.kind == .set then
      fault (.type
        s!"'{(← heap).typeName target}' object does not support item assignment")
    else assignElement c key v
  | other =>
    fault (.type
      s!"'{(← heap).typeName other}' object does not support item assignment")

/-! ### Calls -/

def applyValue (E : Engine) (callee : Value) (args : List Value) (typeArgs : List TypeExpr)
    (site : Span) : Eval Value := do
  match callee with
  | .function _ f => callFunction E f args typeArgs site
  | .native f => Builtin.callNative E f args (typeArgs.map TypeExpr.canonical)
  | .instanceMethod _ o lookup name => do
    let m ← selectMethod (lookup.usableMethods name) args.length
    runMethod E o m args site
  | .staticMethod _ c name => do
    let m ← selectMethod (c.staticMethodsNamed name) args.length
    runStatic E m args site
  | .builtinMethod _ receiver name => Builtin.callMethod E receiver name args
  | .classDef c => newInstance E c typeArgs args site
  | v => fault (.notCallable ((← heap).typeName v))

/-- Calls a member of an instance: a method, a field that holds a function, or a builtin method. -/
def callInstanceMember (E : Engine) (o : Instance) (name : String) (args : List Value)
    (typeArgs : List TypeExpr) (env : Env) (site : Span) : Eval Value := do
  match o.cls.usableMethods name with
  | [] =>
    match (← heap).field? o name with
    | some v => do
      checkField o name env
      E.call v args typeArgs site
    | none => Builtin.callMethod E (.object o) name args
  | candidates => do
    let m ← selectMethod candidates args.length
    requireAccess m.visibility name m.owner env
    runMethod E o m args site

/-- Calls a member of a class: a static method, a static field, or a builtin method. -/
def callClassMember (E : Engine) (c : ClassDef) (name : String) (args : List Value)
    (typeArgs : List TypeExpr) (env : Env) (site : Span) : Eval Value := do
  match c.staticMethodsNamed name with
  | [] =>
    match (← heap).classStatic? c name with
    | some v => E.call v args typeArgs site
    | none => Builtin.callMethod E (.classDef c) name args
  | candidates => do
    let m ← selectMethod candidates args.length
    requireAccess m.visibility name m.owner env
    runStatic E m args site

def callMember (E : Engine) (v : Value) (name : String) (args : List Value)
    (typeArgs : List TypeExpr) (env : Env) (site : Span) : Eval Value := do
  match v with
  | .object o => callInstanceMember E o name args typeArgs env site
  | .classDef c => callClassMember E c name args typeArgs env site
  | .interfaceDef i =>
    match (← heap).interfaceStatic? i name with
    | some f => E.call f args typeArgs site
    | none => fault (.missingMember i.name name)
  | .module m =>
    match m.member? name with
    | some f => E.call f args typeArgs site
    | none => fault (.missingMember m.name name)
  | .map id =>
    match ((← heap).map id).get? (.str name) with
    | some f =>
      if f.isCallable then E.call f args typeArgs site
      else Builtin.callMethod E (.map id) name args
    | none => Builtin.callMethod E (.map id) name args
  | v => Builtin.callMethod E v name args

/-- The instance that a method runs on, and the class above the one that declares it. -/
def superTarget (env : Env) : Eval (Instance × ClassDef) := do
  match (← heap).scopes.receiver env with
  | none => fault (.other "'super' used outside of a method")
  | some r =>
    match r.cls.parent? with
    | none => fault (.other s!"class {r.cls.name} has no parent class")
    | some p => pure (r.this, p)

/-- Runs a constructor of the class above. -/
def constructAbove (E : Engine) (args : List Value) (env : Env) (site : Span) :
    Eval Value := do
  let (o, parent) ← superTarget env
  match ← selectConstructor parent.name parent.effectiveConstructors args.length with
  | some m => do
    let _ ← runMethod E o m args site
    pure .nil
  | none => pure .nil

/-- Runs a method of the class above. -/
def callAbove (E : Engine) (name : String) (args : List Value) (env : Env) (site : Span) :
    Eval Value := do
  let (o, parent) ← superTarget env
  match parent.usableMethods name with
  | [] => Builtin.callMethod E (.object o) name args
  | candidates => do
    let m ← selectMethod candidates args.length
    runMethod E o m args site

/-- A method of the class above as a value. -/
def memberAbove (name : String) (env : Env) : Eval Value := do
  let (o, parent) ← superTarget env
  if (parent.usableMethods name).isEmpty then fault (.missingMember parent.name name)
  else bindMethod o parent name

end Eval
end ScriptEngine
