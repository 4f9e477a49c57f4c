import ScriptEngine.TypeExpr.Basic

/-!
# Canonical types

Builtin type names may be written in several ways and in any case; `canonicalName` gives the one
spelling that counts.  `render` writes a type with canonical names, a union of the two number types
as `Number`.

* `substitute` puts type arguments in the place of type parameters.
* `Bindings` pairs parameters with arguments; of two entries for a name the later one counts.
-/

namespace ScriptEngine

/-- The spellings of builtin type names, in small letters. -/
def typeAliases : List (String × String) :=
  [("int", "Int"), ("integer", "Int"), ("float", "Float"), ("double", "Float"),
   ("string", "String"), ("str", "String"), ("bool", "Bool"), ("boolean", "Bool"), ("any", "Any"),
   ("number", "Number"), ("void", "Void"), ("nil", "Nil")]

/-- The canonical spelling of a type name. -/
def canonicalName (name : String) : String :=
  (typeAliases.lookup name.toLower).getD name

/-- Type parameters with the arguments they stand for. -/
abbrev Bindings := List (String × TypeExpr)

def Bindings.get? (bs : Bindings) (name : String) : Option TypeExpr :=
  bs.reverse.lookup name

namespace TypeExpr

def any : TypeExpr := .simple "Any"

def isAny : TypeExpr → Bool
  | named n [] => canonicalName n == "Any"
  | _ => false

mutual

/-- A type with every name in its canonical spelling. -/
def canonical : TypeExpr → TypeExpr
  | named n as => named (canonicalName n) (canonicalList as)
  | union ms => union (canonicalList ms)
  | wildcard => wildcard
  | boundedAbove b => boundedAbove (canonical b)
  | boundedBelow b => boundedBelow (canonical b)

/-- Types with every name in its canonical spelling. -/
def canonicalList : List TypeExpr → List TypeExpr
  | [] => []
  | a :: as => canonical a :: canonicalList as

end

mutual

/-- A type with the parameters that have bindings replaced by their arguments. -/
def substitute (bs : Bindings) : TypeExpr → TypeExpr
  | named n [] => (bs.get? n).getD (named n [])
  | named n (a :: as) => named n (substitute bs a :: substituteList bs as)
  | union ms => union (substituteList bs ms)
  | wildcard => wildcard
  | boundedAbove b => boundedAbove (substitute bs b)
  | boundedBelow b => boundedBelow (substitute bs b)

/-- Types with the parameters that have bindings replaced by their arguments. -/
def substituteList (bs : Bindings) : List TypeExpr → List TypeExpr
  | [] => []
  | a :: as => substitute bs a :: substituteList bs as

end

mutual

/-- Without arguments nothing takes the place of type parameters. -/
theorem substitute_nil :
    (t : TypeExpr) → t.substitute [] = t
  | named n [] => by
      simp [substitute, Bindings.get?]
  | named n (a :: as) => by
      rw [substitute, substitute_nil a, substituteList_nil as]
  | union ms => by
      rw [substitute, substituteList_nil ms]
  | wildcard => rfl
  | boundedAbove b => by
      rw [substitute, substitute_nil b]
  | boundedBelow b => by
      rw [substitute, substitute_nil b]

theorem substituteList_nil :
    (as : List TypeExpr) → substituteList [] as = as
  | [] => rfl
  | a :: as => by
      rw [substituteList, substitute_nil a, substituteList_nil as]

end

/-- Whether the members of a union are exactly the two number types. -/
def isIntOrFloat (members : List TypeExpr) : Bool :=
  let names := members.filterMap fun
    | named n [] => some (canonicalName n)
    | _ => none
  members.length == 2 && names.length == 2 && names.contains "Int" && names.contains "Float"

mutual

/-- The text of a type in canonical spelling. -/
def render : TypeExpr → String
  | named n [] => canonicalName n
  | named n (a :: as) => canonicalName n ++ "<" ++ render a ++ renderTail ", " as ++ ">"
  | union ms => if isIntOrFloat ms then "Number" else renderJoin " | " ms
  | wildcard => "?"
  | boundedAbove b => "? extends " ++ render b
  | boundedBelow b => "? super " ++ render b

/-- The canonical texts of types with a separator between them. -/
def renderJoin (separator : String) : List TypeExpr → String
  | [] => ""
  | a :: as => render a ++ renderTail separator as

/-- The canonical texts of types, each after a separator. -/
def renderTail (separator : String) : List TypeExpr → String
  | [] => ""
  | a :: as => separator ++ render a ++ renderTail separator as

end

end TypeExpr

/-- Pairs parameters with arguments; a missing argument is the type of all values. -/
def pairParams : List TypeParam → List TypeExpr → Bindings
  | [], _ => []
  | p :: ps, [] => (p.name, .any) :: pairParams ps []
  | p :: ps, a :: as => (p.name, a) :: pairParams ps as

end ScriptEngine
