import ScriptEngine.Heap.Registry

/-!
# Subtyping

When one type can stand in the place of another.

* `isSubtype` compares two types: unions member by member, wildcards by their bounds, names by
  inheritance.
* `argFits` compares two type arguments, where a name matches only itself.
-/

namespace ScriptEngine
namespace Typing

variable (reg : Registry)

/-- Whether a name of a type can stand for another without inheritance. -/
def sameHead (actual expected : String) : Bool :=
  actual == expected || (expected == "Number" && (actual == "Int" || actual == "Float"))

mutual

/-- Whether a type can stand where another is required. -/
def isSubtype (actual expected : TypeExpr) : Bool :=
  if actual.isAny || expected.isAny then true
  else
    match actual, expected with
    | .union ms, e => allSubtypes ms e
    | a, .union ms => anySubtype a ms
    | _, .wildcard => true
    | a, .boundedAbove b => isSubtype a b
    | a, .boundedBelow b => isSubtype b a
    | .boundedAbove a, e => isSubtype a e
    | .wildcard, _ => false
    | .boundedBelow _, _ => false
    | .named a as, .named e es =>
      (sameHead (canonicalName a) (canonicalName e) ||
        reg.isSubtype (canonicalName a) (canonicalName e)) &&
        (as.isEmpty || es.isEmpty || argsMatch as es)
  termination_by sizeOf actual + sizeOf expected

/-- Whether each of several types can stand where another is required. -/
def allSubtypes (members : List TypeExpr) (expected : TypeExpr) : Bool :=
  match members with
  | [] => true
  | m :: ms => isSubtype m expected && allSubtypes ms expected
  termination_by sizeOf members + sizeOf expected

/-- Whether a type can stand where one of several is required. -/
def anySubtype (actual : TypeExpr) (members : List TypeExpr) : Bool :=
  match members with
  | [] => false
  | m :: ms => isSubtype actual m || anySubtype actual ms
  termination_by sizeOf actual + sizeOf members

def argFits (actual requested : TypeExpr) : Bool :=
  if actual.isAny || requested.isAny then true
  else
    match actual, requested with
    | _, .wildcard => true
    | a, .boundedAbove b => isSubtype a b
    | a, .boundedBelow b => isSubtype b a
    | .union ms, r => allMatch ms r
    | a, .union ms => anyMatch a ms
    | .named a as, .named r rs =>
      sameHead (canonicalName a) (canonicalName r) &&
        (as.isEmpty || rs.isEmpty || argsMatch as rs)
    | _, _ => false
  termination_by sizeOf actual + sizeOf requested

/-- Whether each of several type arguments matches one that is requested. -/
def allMatch (members : List TypeExpr) (requested : TypeExpr) : Bool :=
  match members with
  | [] => true
  | m :: ms => argFits m requested && allMatch ms requested
  termination_by sizeOf members + sizeOf requested

/-- Whether a type argument matches one of several that are requested. -/
def anyMatch (actual : TypeExpr) (members : List TypeExpr) : Bool :=
  match members with
  | [] => false
  | m :: ms => argFits actual m || anyMatch actual ms
  termination_by sizeOf actual + sizeOf members

/-- Whether type arguments match those requested, slot by slot. -/
def argsMatch (actual requested : List TypeExpr) : Bool :=
  match actual, requested with
  | [], [] => true
  | a :: as, r :: rs => argFits a r && argsMatch as rs
  | _, _ => false
  termination_by sizeOf actual + sizeOf requested

end

end Typing
end ScriptEngine
