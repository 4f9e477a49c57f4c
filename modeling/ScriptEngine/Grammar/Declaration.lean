import ScriptEngine.Grammar.Expression

/-!
# Reading declarations

Functions, classes, interfaces, enums and records.
-/

namespace ScriptEngine
namespace Grammar

variable (g : Reader)

/-- How it is decided whether a signature has a body. -/
inductive BodyRule
  | required
  | absent
  | ifMarked
  deriving DecidableEq, Repr

/-- What kind of declaration members stand in. -/
inductive OwnerKind
  | classLike
  | interface
  | record
  deriving DecidableEq, Repr

/-- Reads the body of a function: an expression after an equals sign, or a block. -/
def functionBody (start : Span) : Parse (List Stmt) := do
  if ← eatMark .equal then
    let value ← g.expression
    return [.ret (some value) value.span]
  else
    let _ ← eatMark .colon
    let body ← block g [.endKw]
    closeBlock "def" start
    return body

/-- Reads a function or method; also tells whether it has a body. -/
def functionDecl (mode : BodyRule) : Parse (FunctionDecl Stmt × Bool) := do
  let start ← currentSpan
  expectWord .defKw
  let name ← expectName
  let typeParams ← if ← atMark .less then typeParams g else pure []
  let params ← params g
  let returns ← if ← eatMark .arrow then some <$> g.type else pure none
  let hasBody ← match mode with
    | .required => pure true
    | .absent => pure false
    | .ifMarked =>
      if ← atMark .colon then pure true else atMark .equal
  let body ←
    if hasBody then functionBody g start else pure []
  return (⟨name, typeParams, params, returns, body, ← spanSince start⟩, hasBody)

/-- Reads the names in parentheses that a sealed type permits. -/
def permits : Parse (List String) := do
  if ← eatMark .leftParen then
    let names ← repeatRead (fun acc => do
      if ← atMark .rightParen then return .done acc
      let acc := acc ++ [← expectName]
      if ← eatMark .comma then return .again acc else return .done acc) []
    expectMark .rightParen
    return names
  else return []

/-- Reads modifiers, in any order and number; the last of a kind counts. -/
def modifiers : Parse Modifiers :=
  repeatRead (fun (m : Modifiers) => do
    match ← current with
    | .keyword .publicKw =>
      advance
      return .again { m with visibility := .visible }
    | .keyword .privateKw =>
      advance
      return .again { m with visibility := .hidden }
    | .keyword .protectedKw =>
      advance
      return .again { m with visibility := .guarded }
    | .keyword .staticKw =>
      advance
      return .again { m with isStatic := true }
    | .keyword .abstractKw =>
      advance
      return .again { m with isAbstract := true }
    | _ => return .done m) Modifiers.plain

/-- The way of binding that a word stands for. -/
def bindingKindOf : Token → BindingKind
  | .keyword .varKw => .varBinding
  | .keyword .constKw => .constBinding
  | .keyword .finalKw => .finalBinding
  | _ => .letBinding

def initializer : Parse (Option Expr) := do
  if ← eatMark .equal then some <$> g.expression
  else if ← eatMark .colonEqual then some <$> g.expression
  else return none

def fieldDecl (modifiers : Modifiers) (start : Span) : Parse (FieldDecl Expr) := do
  let kind := bindingKindOf (← current)
  advance
  let name ← expectName
  let type ← optionalType g
  let init ← initializer g
  return ⟨name, kind, modifiers, type, init, ← spanSince start⟩

/-- The members of a declaration. -/
structure Members where
  fields : List (FieldDecl Expr)
  methods : List (MethodDecl Stmt)
  constructors : List (ConstructorDecl Stmt)

/-- Reads a constructor after its name. -/
def constructorDecl (start : Span) : Parse (ConstructorDecl Stmt) := do
  advance
  let params ← params g
  let _ ← eatMark .colon
  let body ← block g [.endKw]
  closeBlock "constructor" start
  return ⟨params, body, ← spanSince start⟩

/-- Fails because no member starts here. -/
def failNoMember {α : Type} (owner : String) : Parse α := do
  let e ← unexpected [.word .varKw, .word .defKw, .word .endKw]
  throw { e with suggestion := some ("Expected a member declaration in '" ++ owner ++ "'") }

def member (owner : String) (context : OwnerKind) (acc : Members) : Parse Members := do
  let start ← currentSpan
  let modifiers ← modifiers
  match ← current with
  | .keyword k =>
    match k with
    | .varKw | .letKw | .constKw | .finalKw =>
      if context = .record then
        failInvalid "records cannot declare fields; use components" start
      let modifiers' :=
        if context = .interface then { modifiers with isStatic := true } else modifiers
      let field ← fieldDecl g modifiers' start
      return { acc with fields := acc.fields ++ [field] }
    | .defKw =>
      let mode := if context = .interface then BodyRule.ifMarked
        else if modifiers.isAbstract then .absent else .required
      let function ← functionDecl g mode
      return { acc with methods := acc.methods ++ [⟨function.1, modifiers, function.2⟩] }
    | _ => failNoMember owner
  | .identifier name =>
    if name = owner ∧ context = .classLike then
      if (← peek 1).isMark .leftParen then
        let constructor ← constructorDecl g start
        return { acc with constructors := acc.constructors ++ [constructor] }
    failNoMember owner
  | _ => failNoMember owner

/-- Reads members up to the end of the declaration. -/
def members (owner : String) (context : OwnerKind) : Parse Members :=
  repeatRead (fun acc => do
    if ← atWord .endKw then return .done acc
    if ← atEof then return .done acc
    if ← eatMark .semicolon then return .again acc
    return .again (← member g owner context acc)) ⟨[], [], []⟩

/-- Reads an optional list of implemented interfaces. -/
def implementedTypes : Parse (List TypeExpr) := do
  if ← eatWord .implementsKw then typeList g else return []

def classDecl (start : Span) (isSealed : Bool) : Parse Stmt := do
  let isAbstract ← eatWord .abstractKw
  expectWord .classKw
  let name ← expectName
  let typeParams ← optionalTypeParams g
  let permits ← permits
  let hasParent ← if ← eatMark .less then pure true else eatWord .extendsKw
  let parent ← if hasParent then some <$> g.type else pure none
  let interfaces ← implementedTypes g
  let _ ← eatMark .colon
  let ms ← members g name .classLike
  closeBlock "class" start
  return .classDecl ⟨name, typeParams, parent, interfaces, isSealed, isAbstract, permits,
    ms.fields, ms.methods, ms.constructors, ← spanSince start⟩

def interfaceDecl (start : Span) (isSealed : Bool) : Parse Stmt := do
  expectWord .interfaceKw
  let name ← expectName
  let typeParams ← optionalTypeParams g
  let permits ← permits
  let parents ← if ← eatWord .extendsKw then typeList g else pure []
  let _ ← eatMark .colon
  let ms ← members g name .interface
  closeBlock "interface" start
  return .interfaceDecl ⟨name, typeParams, parents, isSealed, permits, ms.methods, ms.fields,
    ← spanSince start⟩

/-- Reads one constant of an enum, unless its constructor or another member starts here. -/
def enumRound (owner : String) (acc : List (EnumConstant Expr)) :
    Parse (Round (List (EnumConstant Expr)) (List (EnumConstant Expr))) := do
  match ← current with
  | .identifier name =>
    if name = owner then
      if (← peek 1).isMark .leftParen then return .done acc
    let start ← currentSpan
    advance
    let hasArgs ← if ← atMark .leftParen then continuesLine else pure false
    let args ← if hasArgs then arguments g else pure []
    let constant : EnumConstant Expr := ⟨name, args, ← spanSince start⟩
    let _ ← eatMark .comma
    let _ ← eatMark .semicolon
    return .again (acc ++ [constant])
  | _ => return .done acc

def enumDecl (start : Span) (isSealed : Bool) : Parse Stmt := do
  expectWord .enumKw
  let name ← expectName
  let permits ← permits
  let interfaces ← implementedTypes g
  let _ ← eatMark .colon
  let constants ← repeatRead (enumRound g name) []
  let ms ← members g name .classLike
  closeBlock "enum" start
  return .enumDecl ⟨name, isSealed, permits, interfaces, constants, ms.fields, ms.methods,
    ms.constructors, ← spanSince start⟩

def recordDecl : Parse Stmt := do
  let start ← currentSpan
  expectWord .recordKw
  let name ← expectName
  let typeParams ← optionalTypeParams g
  let components ← params g
  if let some c := components.find? Param.variadic then
    failInvalid "record components cannot be variadic" c.span
  let interfaces ← implementedTypes g
  let _ ← eatMark .colon
  let ms ← members g name .record
  closeBlock "record" start
  return .recordDecl ⟨name, typeParams, components, interfaces, ms.methods, ← spanSince start⟩

def sealedDecl : Parse Stmt := do
  let start ← currentSpan
  expectWord .sealedKw
  match ← current with
  | .keyword .classKw | .keyword .abstractKw => classDecl g start true
  | .keyword .interfaceKw => interfaceDecl g start true
  | .keyword .enumKw => enumDecl g start true
  | _ => failExpecting [.word .classKw, .word .interfaceKw, .word .enumKw]

end Grammar
end ScriptEngine
