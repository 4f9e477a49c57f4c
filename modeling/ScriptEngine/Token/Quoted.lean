import ScriptEngine.Token.Error

/-!
# Quoted strings

A double-quoted string may hold embedded expressions: a number sign and an opening brace start one,
and the brace that closes it ends one.  `quotedParts` splits the characters after the opening quote
into raw text and holes; escapes are resolved by `unescape`, part by part.

* `splitHole_append`: the hole, its closing brace and the rest make up what was split.
-/

namespace ScriptEngine

/-- Resolves the escapes of a raw text; a lone backslash at the end is dropped. -/
def unescape : List Char → List Char
  | [] => []
  | '\\' :: [] => []
  | '\\' :: c :: r =>
    (if c = 'n' then '\n' else if c = 'r' then '\r' else if c = 't' then '\t'
      else if c = '0' then '\x00' else c) :: unescape r
  | c :: r => c :: unescape r

/-- Splits the characters of a hole from what follows its closing brace.  Braces nest, and inside a
quoted string they do not count. -/
def splitHole : Nat → Option Char → List Char → Option (List Char × List Char)
  | _, _, [] => none
  | depth, some quote, c :: r =>
    if c = '\\' then
      match r with
      | [] => none
      | d :: r' => (splitHole depth (some quote) r').map fun p => (c :: d :: p.1, p.2)
    else
      let quote' := if c = quote then none else some quote
      (splitHole depth quote' r).map fun p => (c :: p.1, p.2)
  | depth, none, c :: r =>
    if c = '"' ∨ c = '\'' then (splitHole depth (some c) r).map fun p => (c :: p.1, p.2)
    else if c = '{' then (splitHole (depth + 1) none r).map fun p => (c :: p.1, p.2)
    else if c = '}' then
      match depth with
      | 0 => some ([], r)
      | d + 1 => (splitHole d none r).map fun p => (c :: p.1, p.2)
    else (splitHole depth none r).map fun p => (c :: p.1, p.2)

theorem splitHole_append {depth : Nat} {quote : Option Char} {cs hole rest : List Char}
    (h : splitHole depth quote cs = some (hole, rest)) : hole ++ '}' :: rest = cs := by
  fun_induction splitHole depth quote cs generalizing hole rest <;>
    simp_all only [Option.map_eq_some_iff, Option.some.injEq, Prod.mk.injEq, Prod.exists,
      reduceCtorEq, exists_eq_right_right]
  all_goals
    obtain ⟨a, b, hab, rfl, rfl⟩ := h
    simp_all

theorem length_of_splitHole {depth : Nat} {quote : Option Char} {cs hole rest : List Char}
    (h : splitHole depth quote cs = some (hole, rest)) :
    hole.length + rest.length + 1 = cs.length := by
  have := congrArg List.length (splitHole_append h)
  simp at this
  omega

/-- A raw part of a quoted string. -/
inductive RawPart
  | text (raw : List Char)
  | hole (inner : List Char)
  deriving Repr, DecidableEq

namespace RawPart

/-- The characters that a part takes up. -/
def chars : RawPart → List Char
  | text raw => raw
  | hole inner => '#' :: '{' :: inner ++ ['}']

end RawPart

/-- How the scan of a quoted string ends. -/
inductive QuotedEnd
  | closed (rest : List Char)
  | unterminatedString
  | unterminatedHole
  deriving Repr, DecidableEq

/-- Puts raw characters in front of the parts of a quoted string. -/
def consRaw (cs : List Char) : List RawPart → List RawPart
  | .text raw :: ps => .text (cs ++ raw) :: ps
  | ps => .text cs :: ps

/-- The parts of a quoted string up to its closing quote. -/
def quotedParts (cs : List Char) : List RawPart × QuotedEnd :=
  match cs with
  | [] => ([], .unterminatedString)
  | '"' :: r => ([], .closed r)
  | '\\' :: c :: r =>
    let p := quotedParts r
    (consRaw ['\\', c] p.1, p.2)
  | '#' :: '{' :: r =>
    match _h : splitHole 0 none r with
    | none => ([], .unterminatedHole)
    | some (inner, rest) =>
      let p := quotedParts rest
      (.hole inner :: p.1, p.2)
  | c :: r =>
    let p := quotedParts r
    (consRaw [c] p.1, p.2)
termination_by cs.length
decreasing_by
  all_goals simp_wf
  all_goals try have := length_of_splitHole _h
  all_goals omega

end ScriptEngine
