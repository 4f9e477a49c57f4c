import ScriptEngine.Token.Basic

/-!
# Errors of reading tokens

What can be wrong with the characters of a text, where, and how it is reported.
-/

namespace ScriptEngine

/-- What is wrong with a piece of text. -/
inductive LexCause
  | unexpectedCharacter (c : Char)
  | unterminatedString
  | unterminatedInterpolation
  | invalidNumber (text : String)
  deriving Repr, DecidableEq

/-- A cause with its place. -/
structure LexError where
  cause : LexCause
  span : Span
  deriving Repr, DecidableEq

namespace LexCause

def message : LexCause → String
  | unexpectedCharacter c => "Unexpected character '" ++ String.singleton c ++ "'"
  | unterminatedString => "Unterminated string literal"
  | unterminatedInterpolation => "Unterminated string interpolation"
  | invalidNumber text => "Invalid number '" ++ text ++ "'"

/-- Advice that goes with a cause. -/
def hint? : LexCause → Option String
  | unterminatedString => some "Add a closing quote to terminate the string"
  | unterminatedInterpolation => some "Close the interpolation with '\x7d'"
  | _ => none

end LexCause

/-- The lines of a text: a line ends at a newline, a carriage return before it is dropped, and a
last empty line does not count. -/
def textLines (cs : List Char) : List (List Char) :=
  let trim (l : List Char) : List Char :=
    match l.reverse with
    | '\r' :: r => r.reverse
    | _ => l
  let rec go (current : List Char) : List Char → List (List Char)
    | [] => if current.isEmpty then [] else [current.reverse]
    | c :: r => if c = '\n' then trim current.reverse :: go [] r else go (c :: current) r
  go [] cs

namespace LexError

/-- The report of an error on one line. -/
def text (e : LexError) : String := e.cause.message ++ " at " ++ e.span.text

/-- The report of an error with the line it stands on. -/
def textIn (e : LexError) (source : String) : String :=
  let head := "Error at " ++ e.span.text ++ ": " ++ e.cause.message ++ "\n"
  let line :=
    match (textLines source.toList)[e.span.line - 1]? with
    | some l =>
      let number := toString e.span.line
      let pad := String.ofList (List.replicate (3 - number.length) ' ')
      let caret := String.ofList (List.replicate (e.span.column - 1) ' ')
      "  |\n" ++ pad ++ number ++ " | " ++ String.ofList l ++ "\n  | " ++ caret ++ "^\n"
    | none => ""
  let hint :=
    match e.cause.hint? with
    | some h => "\nHint: " ++ h ++ "\n"
    | none => ""
  head ++ line ++ hint

end LexError
end ScriptEngine
