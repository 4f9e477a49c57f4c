import ScriptEngine.TypeExpr.Canonical
import ScriptEngine.Tree.Basic
import ScriptEngine.Overload

/-!
# Classes and interfaces

What the declarations of a program define.  Two definitions are the same when their numbers are:
a type that is declared twice has two definitions.

* A `ClassDef` is a class, an enum or a record: its own layer and the layers of its ancestors,
  nearest first.  `lineage` lists the class and its ancestors.
* An `Interface` is its own part and the interfaces it extends.
* `usableMethods` collects the methods of a name that have a body: those of the class, then those of
  its ancestors, then the defaults of all interfaces in reach.
-/

namespace ScriptEngine

/-- The number of a scope. -/
abbrev ScopeId := Nat

/-- The scopes that code can see, innermost first. -/
abbrev Env := List ScopeId

/-- A function that a program declares or writes as a lambda. -/
structure Function where
  name : String
  typeParams : List TypeParam
  params : List Param
  returns : Option TypeExpr
  body : LambdaBody Expr Stmt
  closure : Env

/-- A method or constructor; abstract ones have no body. -/
structure Method where
  name : String
  owner : String
  typeParams : List TypeParam
  params : List Param
  returns : Option TypeExpr
  body : Option (List Stmt)
  visibility : Visibility
  isStatic : Bool
  closure : Env

def Method.isAbstract (m : Method) : Bool := m.body.isNone

/-- A field of the instances of a class. -/
structure FieldDef where
  name : String
  kind : BindingKind
  visibility : Visibility
  type : Option TypeExpr
  init : Option Expr

/-- The methods of a name, in order of declaration. -/
def methodsNamed (ms : List Method) (name : String) : List Method := ms.filter (·.name == name)

def bodiesNamed (ms : List Method) (name : String) : List Method :=
  (methodsNamed ms name).filter (!·.isAbstract)

/-- The own part of an interface. -/
structure InterfaceLayer where
  id : Nat
  name : String
  typeParams : List TypeParam
  isSealed : Bool
  permits : List String
  methods : List Method

/-- An interface with the interfaces it extends. -/
inductive Interface
  | mk (own : InterfaceLayer) (parents : List Interface)

namespace Interface

def own : Interface → InterfaceLayer
  | mk o _ => o

def parents : Interface → List Interface
  | mk _ ps => ps

def name (i : Interface) : String := i.own.name

mutual

def extendsName (name : String) : Interface → Bool
  | mk o ps => o.name == name || anyExtends name ps

def anyExtends (name : String) : List Interface → Bool
  | [] => false
  | i :: rest => extendsName name i || anyExtends name rest

end

mutual

/-- Adds an interface and those it extends, depth first, to those already seen. -/
def gatherInto (seen : List Interface) : Interface → List Interface
  | mk o ps =>
    if seen.any (·.own.id == o.id) then seen else collectAll (seen ++ [mk o ps]) ps

/-- Adds several interfaces and those they extend to those already seen. -/
def collectAll (seen : List Interface) : List Interface → List Interface
  | [] => seen
  | i :: rest => collectAll (gatherInto seen i) rest

end

/-- An interface and every interface it extends, each once. -/
def withExtended (i : Interface) : List Interface := i.gatherInto []

end Interface

/-- The declarations that define a class. -/
inductive ClassKind
  | cls
  | enumeration
  | record
  deriving Repr, DecidableEq, Inhabited

def ClassKind.word : ClassKind → String
  | cls => "Class"
  | enumeration => "Enum"
  | record => "Record"

/-- What one declaration adds to a class. -/
structure ClassLayer where
  id : Nat
  name : String
  kind : ClassKind
  typeParams : List TypeParam
  parentArgs : List TypeExpr
  interfaces : List Interface
  isAbstract : Bool
  isSealed : Bool
  permits : List String
  fields : List FieldDef
  methods : List Method
  staticMethods : List Method
  constructors : List Method
  components : List Param
  closure : Env
  /-- A class is the owner of what it declares. -/
  owned : ∀ m ∈ methods ++ constructors, m.owner = name

instance : Inhabited ClassLayer where
  default :=
    { id := 0
      name := ""
      kind := .cls
      typeParams := []
      parentArgs := []
      interfaces := []
      isAbstract := false
      isSealed := false
      permits := []
      fields := []
      methods := []
      staticMethods := []
      constructors := []
      components := []
      closure := []
      owned := nofun }

/-- A class with its ancestors, nearest first. -/
structure ClassDef where
  own : ClassLayer
  ancestors : List ClassLayer
  deriving Inhabited

namespace ClassDef

def name (c : ClassDef) : String := c.own.name

def id (c : ClassDef) : Nat := c.own.id

def kind (c : ClassDef) : ClassKind := c.own.kind

def parent? (c : ClassDef) : Option ClassDef :=
  match c.ancestors with
  | [] => none
  | l :: rest => some ⟨l, rest⟩

/-- The layers of a class and its ancestors, nearest first. -/
def layers (c : ClassDef) : List ClassLayer := c.own :: c.ancestors

def fromLayers : List ClassLayer → List ClassDef
  | [] => []
  | l :: rest => ⟨l, rest⟩ :: fromLayers rest

/-- A class and its ancestors, nearest first. -/
def lineage (c : ClassDef) : List ClassDef := c :: fromLayers c.ancestors

/-- Whether a layer has a name or implements an interface of that name. -/
def layerIs (name : String) (l : ClassLayer) : Bool :=
  l.name == name || l.interfaces.any (·.extendsName name)

/-- Whether a class has a name, extends a class that has or implements an interface that has. -/
def isA (c : ClassDef) (name : String) : Bool := c.layers.any (layerIs name)

/-- Every interface that a class or an ancestor implements, each once. -/
def implementedInterfaces (c : ClassDef) : List Interface :=
  c.layers.foldl (fun seen l => Interface.collectAll seen l.interfaces) []

def usableMethods (c : ClassDef) (name : String) : List Method :=
  c.layers.flatMap (fun l => bodiesNamed l.methods name) ++
    c.implementedInterfaces.flatMap fun i => bodiesNamed i.own.methods name

/-- The static methods of a name, nearest class first. -/
def staticMethodsNamed (c : ClassDef) (name : String) : List Method :=
  c.layers.flatMap fun l => methodsNamed l.staticMethods name

def effectiveConstructors (c : ClassDef) : List Method :=
  ((c.layers.find? fun l => !l.constructors.isEmpty).map (·.constructors)).getD []

/-- The nearest field of a name, with the class that declares it. -/
def fieldNamed (c : ClassDef) (name : String) : Option (ClassDef × FieldDef) :=
  c.lineage.findSome? fun d => (d.own.fields.find? (·.name == name)).map (d, ·)

end ClassDef

/-- The first abstract method of a list that no method with a body implements. -/
def unimplemented? (c : ClassDef) (ms : List Method) : Option String :=
  (ms.find? fun m => m.isAbstract && (c.usableMethods m.name).isEmpty).map (·.name)

/-- The fault of a class that leaves an abstract method without a body. -/
def ClassDef.missingBody? (c : ClassDef) : Option Cause :=
  (c.implementedInterfaces.findSome? fun i =>
    (unimplemented? c i.own.methods).map fun name => Cause.type
      s!"class {c.name} must implement abstract method '{name}' of interface {i.name}") <|>
  c.layers.findSome? fun l =>
    (unimplemented? c l.methods).map fun name => Cause.type
      s!"class {c.name} must implement abstract method '{name}' of {l.name}"

/-- The fault of a method that uses a type parameter against its variance. -/
def misuse? (p : TypeParam) (m : Method) : Option Cause :=
  match p.variance with
  | .output =>
    if (m.params.filterMap (·.type)).any (·.mentions p.name) then
      some (.variance
        (s!"covariant type parameter '{p.name}' (declared with 'out') cannot be used in " ++
          s!"parameter position of method '{m.name}'"))
    else none
  | .input =>
    if m.returns.any (·.mentions p.name) then
      some (.variance
        (s!"contravariant type parameter '{p.name}' (declared with 'in') cannot be used in " ++
          s!"return position of method '{m.name}'"))
    else none
  | .invariant => none

/-- The fault of methods that use a type parameter against its variance. -/
def varianceFault? (ps : List TypeParam) (ms : List Method) : Option Cause :=
  (ms.filter (!·.isStatic)).findSome? fun m => ps.findSome? fun p => misuse? p m

end ScriptEngine
