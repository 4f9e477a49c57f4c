/-!
# Type expressions

A type expression is a name with arguments, a union, or a wildcard with at most one bound.  Type
parameters may be bounded, marked for input or output, and the last one may stand for any number of
arguments.

* `TypeExpr.text` writes a type expression the way it is read.
* `TypeExpr.mentions` tells whether a name occurs in it.
-/

namespace ScriptEngine

/-- A type expression. -/
inductive TypeExpr
  | named (name : String) (args : List TypeExpr)
  | union (members : List TypeExpr)
  | wildcard
  | boundedAbove (bound : TypeExpr)
  | boundedBelow (bound : TypeExpr)
  deriving Inhabited, Repr

/-- The declared variance of a type parameter. -/
inductive Variance
  | invariant
  | input
  | output
  deriving Repr, DecidableEq, Inhabited

/-- A type parameter of a declaration. -/
structure TypeParam where
  name : String
  bound : Option TypeExpr
  variance : Variance
  variadic : Bool
  deriving Inhabited, Repr

namespace TypeExpr

def simple (name : String) : TypeExpr := .named name []

mutual

def same : TypeExpr → TypeExpr → Bool
  | named n as, named m bs => n == m && sameList as bs
  | union as, union bs => sameList as bs
  | wildcard, wildcard => true
  | boundedAbove a, boundedAbove b => same a b
  | boundedBelow a, boundedBelow b => same a b
  | _, _ => false

def sameList : List TypeExpr → List TypeExpr → Bool
  | [], [] => true
  | a :: as, b :: bs => same a b && sameList as bs
  | _, _ => false

end

instance : BEq TypeExpr := ⟨same⟩

def headName? : TypeExpr → Option String
  | named n _ => some n
  | _ => none

mutual

def mentions (param : String) : TypeExpr → Bool
  | named n as => n == param || mentionsAny param as
  | union ms => mentionsAny param ms
  | wildcard => false
  | boundedAbove b => mentions param b
  | boundedBelow b => mentions param b

/-- Whether a name occurs in one of several type expressions. -/
def mentionsAny (param : String) : List TypeExpr → Bool
  | [] => false
  | a :: as => mentions param a || mentionsAny param as

end

mutual

def text : TypeExpr → String
  | named n [] => n
  | named n (a :: as) => n ++ "<" ++ text a ++ textTail ", " as ++ ">"
  | union [] => ""
  | union (m :: ms) => text m ++ textTail " | " ms
  | wildcard => "?"
  | boundedAbove b => "? extends " ++ text b
  | boundedBelow b => "? super " ++ text b

def textTail (separator : String) : List TypeExpr → String
  | [] => ""
  | a :: as => separator ++ text a ++ textTail separator as

end

/-- The texts of type expressions with commas between them. -/
def textList : List TypeExpr → String
  | [] => ""
  | a :: as => text a ++ textTail ", " as

end TypeExpr
end ScriptEngine
