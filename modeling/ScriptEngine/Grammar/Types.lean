import ScriptEngine.Grammar.State

/-!
# Reading types

    type   := atom ('|' atom)*
    atom   := '?' (('extends' | 'super') type)? | Name ('<' type (',' type)* '>')? | 'nil'
    params := '<' param (',' param)* '>'
    param  := ('in' | 'out')? Name ('extends' type)? '...'?
-/

namespace ScriptEngine
namespace Grammar

variable (g : Reader)

/-- Reads the rest of a list of type arguments, after at least one was read or none is there. -/
def typeArgs : Parse (List TypeExpr) := do
  expectMark .less
  let args ←
    if ← atMark .greater then pure []
    else
      repeatRead (fun acc => do
        let acc := acc ++ [← g.type]
        if ← eatMark .comma then return .again acc else return .done acc) []
  expectMark .greater
  return args

/-- Reads a type that is not a union, at the level of its caller. -/
def typeAtomHere : Parse TypeExpr := do
  match ← current with
  | .mark .question =>
    advance
    if ← eatWord .extendsKw then return .boundedAbove (← g.type)
    else if ← eatWord .superKw then return .boundedBelow (← g.type)
    else return .wildcard
  | .identifier name =>
    advance
    let args ← if ← atMark .less then typeArgs g else pure []
    return .named name args
  | .keyword .nilKw =>
    advance
    return .simple "Nil"
  | _ => failExpecting [.name, .mark .question]

/-- Reads a type that is not a union, one level deeper. -/
def typeAtom : Parse TypeExpr := nested (typeAtomHere g)

def typeExpr : Parse TypeExpr := do
  let first ← typeAtom g
  if ← atMark .pipe then
    repeatRead (fun acc => do
      if ← eatMark .pipe then return .again (acc ++ [← typeAtom g])
      else return .done (.union acc)) [first]
  else return first

/-- Reads type arguments that are followed, on the same line, by an opening parenthesis. -/
def callTypeArgs? : Parse (Option (List TypeExpr)) :=
  tryRead do
    let args ← typeArgs g
    if ← atMark .leftParen then
      if ← continuesLine then return some args
    return none

/-- Reads the variance of a type parameter. -/
def variance : Parse Variance := do
  if ← eatWord .outKw then return .output
  else if ← eatWord .inKw then return .input
  else return .invariant

/-- Reads a declared type parameter. -/
def typeParam : Parse TypeParam := do
  let variance ← variance
  let name ← expectName
  let bound ← if ← eatWord .extendsKw then some <$> g.type else pure none
  let variadic ← eatMark .dotDotDot
  return ⟨name, bound, variance, variadic⟩

/-- Reads declared type parameters. -/
def typeParams : Parse (List TypeParam) := do
  expectMark .less
  let params ← repeatRead (fun acc => do
    let acc := acc ++ [← typeParam g]
    if ← eatMark .comma then return .again acc else return .done acc) []
  expectMark .greater
  return params

/-- Reads type parameters after the name of a type; what starts with a `<` but is none belongs to
what follows. -/
def optionalTypeParams : Parse (List TypeParam) := do
  if ← atMark .less then
    return (← tryRead (some <$> typeParams g)).getD []
  else return []

/-- Reads an optional type after a colon. -/
def optionalType : Parse (Option TypeExpr) := do
  if ← eatMark .colon then some <$> g.type else return none

/-- Reads types with commas between them. -/
def typeList : Parse (List TypeExpr) := do
  repeatRead (fun acc => do
    let acc := acc ++ [← g.type]
    if ← eatMark .comma then return .again acc else return .done acc) []

end Grammar
end ScriptEngine
