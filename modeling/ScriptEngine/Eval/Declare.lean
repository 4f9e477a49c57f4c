import ScriptEngine.Eval.Access

/-!
# Declarations of types

Classes, interfaces, enums and records enter the registry and the scope of their declaration once
they have been checked: their supertypes exist and permit them, type parameters are used as their
variance allows, and nothing abstract is left without a body.
-/

namespace ScriptEngine

/-- The text of a text in quotes, as faults show it. -/
def quotedText (s : String) : String :=
  "\"" ++ String.join (s.toList.map fun c =>
    if c == '"' then "\\\"" else if c == '\\' then "\\\\" else String.singleton c) ++ "\""

namespace TypeExpr

mutual

/-- The structure of a type expression, as faults show it. -/
def structureText : TypeExpr → String
  | named n as =>
    "Named(NamedType \x7b name: " ++ quotedText n ++ ", args: [" ++ structureJoin as ++ "] \x7d)"
  | union ms => "Union([" ++ structureJoin ms ++ "])"
  | wildcard => "Wildcard(Unbounded)"
  | boundedAbove b => "Wildcard(Extends(" ++ structureText b ++ "))"
  | boundedBelow b => "Wildcard(Super(" ++ structureText b ++ "))"

/-- The structures of type expressions with commas between them. -/
def structureJoin : List TypeExpr → String
  | [] => ""
  | [t] => structureText t
  | t :: u :: rest => structureText t ++ ", " ++ structureJoin (u :: rest)

end

def arguments : TypeExpr → List TypeExpr
  | named _ as => as
  | _ => []

end TypeExpr

namespace Eval

def supertypeName (t : TypeExpr) : Except Cause String :=
  match t.headName? with
  | some n => .ok n
  | none => .error (.type s!"invalid supertype {t.structureText}")

/-- Whether a list of permitted names lets a type in; an empty list permits all. -/
def permitsName (permits : List String) (name : String) : Bool :=
  permits.isEmpty || permits.contains name

/-- The class of a name: a declared one, or one that a scope binds. -/
def parentNamed (h : Heap) (env : Env) (child name : String) : Except Cause ClassDef :=
  match Registry.cls? h.registry name with
  | some c => .ok c
  | none =>
    match h.scopes.lookup env name with
    | some (.classDef c) => .ok c
    | some (.interfaceDef _) =>
      .error (.type s!"class {child} cannot extend interface {name}; use implements")
    | _ => .error (.undefinedName name)

def parentOf (h : Heap) (env : Env) (child : String) (t : TypeExpr) :
    Except Cause ClassDef := do
  let p ← parentNamed h env child (← supertypeName t)
  if p.kind ≠ .cls then
    throw (.type s!"class {child} cannot extend {p.kind.word.toLower} {p.name}")
  if p.own.isSealed && !permitsName p.own.permits child then
    throw (.sealedType s!"class {p.name} is sealed and does not permit {child} to inherit")
  pure p

/-- The interface of a name: a declared one, or one that a scope binds. -/
def interfaceNamed (h : Heap) (env : Env) (name : String) : Except Cause Interface :=
  match Registry.interface? h.registry name with
  | some i => .ok i
  | none =>
    match h.scopes.lookup env name with
    | some (.interfaceDef i) => .ok i
    | some (.classDef _) => .error (.type s!"{name} is not an interface")
    | _ => .error (.undefinedName name)

/-- An interface that a type implements or extends. -/
def resolveInterface (h : Heap) (env : Env) (dependent : String) (t : TypeExpr) :
    Except Cause Interface := do
  let i ← interfaceNamed h env (← supertypeName t)
  if i.own.isSealed && !permitsName i.own.permits dependent then
    throw (.sealedType
      s!"interface {i.name} is sealed and does not permit {dependent} to implement it")
  pure i

/-- The interfaces that a type implements or extends. -/
def interfacesOf (h : Heap) (env : Env) (dependent : String) (ts : List TypeExpr) :
    Except Cause (List Interface) :=
  ts.mapM (resolveInterface h env dependent)

def withCanonicalTypes (ps : List Param) : List Param :=
  ps.map fun p => { p with type := p.type.map TypeExpr.canonical }

def methodOf (owner : String) (env : Env) (m : MethodDecl Stmt) (hasBody : Bool) : Method where
  name := m.function.name
  owner := owner
  typeParams := m.function.typeParams
  params := withCanonicalTypes m.function.params
  returns := m.function.returns.map TypeExpr.canonical
  body := if hasBody then some m.function.body else none
  visibility := m.modifiers.visibility
  isStatic := m.modifiers.isStatic
  closure := env

/-- The methods of a class that are static, or those that are not. -/
def methodsOf (owner : String) (env : Env) (isStatic : Bool) (ms : List (MethodDecl Stmt)) :
    List Method :=
  (ms.filter (·.modifiers.isStatic == isStatic)).map fun m =>
    methodOf owner env m (m.hasBody && !m.modifiers.isAbstract)

def constructorOf (owner : String) (env : Env) (c : ConstructorDecl Stmt) : Method where
  name := owner
  owner := owner
  typeParams := []
  params := withCanonicalTypes c.params
  returns := none
  body := some c.body
  visibility := .visible
  isStatic := false
  closure := env

/-- The methods and constructors of a class are its own. -/
theorem owner_of_declared
    (owner : String) (env : Env) (ms : List (MethodDecl Stmt)) (cs : List (ConstructorDecl Stmt)) :
    ∀ m ∈ methodsOf owner env false ms ++ cs.map (constructorOf owner env), m.owner = owner := by
  intro m hm
  rcases List.mem_append.mp hm with hmethod | hconstructor
  · obtain ⟨d, -, rfl⟩ := List.mem_map.mp hmethod
    rfl
  · obtain ⟨d, -, rfl⟩ := List.mem_map.mp hconstructor
    rfl

/-- The fields of instances among declared fields. -/
def fieldsOf (fs : List (FieldDecl Expr)) : List FieldDef :=
  (fs.filter (!·.modifiers.isStatic)).map fun f =>
    { name := f.name
      kind := f.kind
      visibility := f.modifiers.visibility
      type := f.type.map TypeExpr.canonical
      init := f.init }

/-- Gives static fields their first values. -/
def fillStatics (E : Engine) (id : Nat) (owner : String) (env : Env) :
    List (FieldDecl Expr) → Eval Unit
  | [] => pure ()
  | f :: rest => do
    let v ← match f.init with
      | some e => E.eval e env
      | none => pure .nil
    let t := f.type.map TypeExpr.canonical
    checkOption v t [] s!"static field '{f.name}' of {owner}"
    modify (·.fillStatic id f.name ⟨v, f.kind, t⟩)
    fillStatics E id owner env rest

/-- Puts a class into the registry and binds its name. -/
def announceClass (c : ClassDef) (env : Env) : Eval Unit := do
  modify fun h =>
    { h with registry := h.registry.put (.cls c), declared := c.name :: h.declared }
  define env c.name (.classDef c) .constBinding none

def staticFields (fs : List (FieldDecl Expr)) : List (FieldDecl Expr) :=
  fs.filter (·.modifiers.isStatic)

def declareClass (E : Engine) (d : ClassDecl Expr Stmt) (env : Env) : Eval Unit := do
  let h ← heap
  let parent ← match d.parent with
    | some t => do pure (some (← ofExcept (parentOf h env d.name t)))
    | none => pure none
  let interfaces ← ofExcept (interfacesOf h env d.name d.interfaces)
  let methods := methodsOf d.name env false d.methods
  unlessFault (varianceFault? d.typeParams methods)
  let id ← change Heap.newStatics
  let c : ClassDef :=
    { own :=
        { id := id
          name := d.name
          kind := .cls
          typeParams := d.typeParams
          parentArgs := (d.parent.map TypeExpr.arguments).getD [] |>.map TypeExpr.canonical
          interfaces := interfaces
          isAbstract := d.isAbstract
          isSealed := d.isSealed
          permits := d.permits
          fields := fieldsOf d.fields
          methods := methods
          staticMethods := methodsOf d.name env true d.methods
          constructors := d.constructors.map (constructorOf d.name env)
          components := []
          closure := env
          owned := owner_of_declared d.name env d.methods d.constructors }
      ancestors := (parent.map ClassDef.layers).getD [] }
  if !d.isAbstract then unlessFault c.missingBody?
  announceClass c env
  fillStatics E id d.name env (staticFields d.fields)
  modify (·.endDeclaration id)

def declareInterface (E : Engine) (d : InterfaceDecl Expr Stmt) (env : Env) : Eval Unit := do
  let h ← heap
  let parents ← ofExcept (interfacesOf h env d.name d.parents)
  let methods := d.methods.map fun m => methodOf d.name env m m.hasBody
  unlessFault (varianceFault? d.typeParams methods)
  let id ← change Heap.newStatics
  let i : Interface :=
    .mk
      { id := id
        name := d.name
        typeParams := d.typeParams
        isSealed := d.isSealed
        permits := d.permits
        methods := methods } parents
  modify fun h =>
    { h with registry := h.registry.put (.interface i), declared := i.name :: h.declared }
  define env d.name (.interfaceDef i) .constBinding none
  fillStatics E id d.name env d.fields
  modify (·.endDeclaration id)

def makeConstant (E : Engine) (c : ClassDef) (k : EnumConstant Expr) (ordinal : Nat) (env : Env) :
    Eval Unit := do
  let args ← k.args.mapM fun e => E.eval e env
  let constructor ← selectConstructor c.name c.own.constructors args.length
  let o ← change fun h => h.newObject c [] (some (k.name, ordinal))
  construct E o constructor args k.span
  modify (·.addConstant c.id k.name (.object o))

def makeConstants (E : Engine) (c : ClassDef) (env : Env) (ordinal : Nat) :
    List (EnumConstant Expr) → Eval Unit
  | [] => pure ()
  | k :: rest => do
    makeConstant E c k ordinal env
    makeConstants E c env (ordinal + 1) rest

def declareEnum (E : Engine) (d : EnumDecl Expr Stmt) (env : Env) : Eval Unit := do
  let h ← heap
  let interfaces ← ofExcept (interfacesOf h env d.name d.interfaces)
  let id ← change Heap.newStatics
  let c : ClassDef :=
    { own :=
        { id := id
          name := d.name
          kind := .enumeration
          typeParams := []
          parentArgs := []
          interfaces := interfaces
          isAbstract := false
          isSealed := d.isSealed
          permits := d.permits
          fields := fieldsOf d.fields
          methods := methodsOf d.name env false d.methods
          staticMethods := methodsOf d.name env true d.methods
          constructors := d.constructors.map (constructorOf d.name env)
          components := []
          closure := env
          owned := owner_of_declared d.name env d.methods d.constructors }
      ancestors := [] }
  unlessFault c.missingBody?
  announceClass c env
  makeConstants E c env 0 d.constants
  fillStatics E id d.name env (staticFields d.fields)
  modify (·.endDeclaration id)

def declareRecord (d : RecordDecl Stmt) (env : Env) : Eval Unit := do
  let h ← heap
  let interfaces ← ofExcept (interfacesOf h env d.name d.interfaces)
  let methods := methodsOf d.name env false d.methods
  unlessFault (varianceFault? d.typeParams methods)
  let id ← change Heap.newStatics
  let c : ClassDef :=
    { own :=
        { id := id
          name := d.name
          kind := .record
          typeParams := d.typeParams
          parentArgs := []
          interfaces := interfaces
          isAbstract := false
          isSealed := false
          permits := []
          fields := []
          methods := methods
          staticMethods := methodsOf d.name env true d.methods
          constructors := []
          components := withCanonicalTypes d.components
          closure := env
          owned := owner_of_declared d.name env d.methods [] }
      ancestors := [] }
  unlessFault c.missingBody?
  announceClass c env
  modify (·.endDeclaration id)

end Eval
end ScriptEngine
