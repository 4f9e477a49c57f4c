import ScriptEngine.Token.Basic

/-!
# Errors of reading programs

What can be wrong with a sequence of tokens, where, and how it is reported.
-/

namespace ScriptEngine

/-- Something that could have stood where an error was found. -/
inductive Expected
  | word (word : Keyword)
  | mark (mark : Mark)
  | name
  | endOfText
  deriving Repr, DecidableEq

/-- The spelling of what was expected; a name has none. -/
def Expected.text : Expected → String
  | word k => k.text
  | mark m => m.text
  | name => ""
  | endOfText => "end of file"

/-- What is wrong with a sequence of tokens. -/
inductive ParseCause
  | unexpectedToken (expected : List Expected) (found : Token)
  | unexpectedEof (expected : List Expected)
  | invalid (reason : String)
  | assignmentTarget
  | unclosedBlock (openedBy : String)
  | limit (message : String)

/-- A cause with its place, and a suggestion. -/
structure ParseError where
  cause : ParseCause
  span : Span
  suggestion : Option String

def expectedText (expected : List Expected) : String :=
  ", ".intercalate (expected.map fun e => "'" ++ e.text ++ "'")

def ParseCause.message : ParseCause → String
  | unexpectedToken expected found =>
    let what := expectedText expected
    (if expected.length = 1 then "Expected " else "Expected one of ") ++ what ++ ", found '" ++
      found.text ++ "'"
  | unexpectedEof expected =>
    let what := expectedText expected
    (if expected.length = 1 then "Unexpected end of file, expected "
      else "Unexpected end of file, expected one of ") ++ what
  | invalid reason => "Invalid syntax: " ++ reason
  | assignmentTarget => "Invalid assignment target"
  | unclosedBlock openedBy => "Missing 'end' for '" ++ openedBy ++ "' block"
  | limit message => "Parser limit exceeded: " ++ message

namespace ParseError

/-- An error with the advice that its cause always carries. -/
def ofCause (cause : ParseCause) (span : Span) : ParseError :=
  ⟨cause, span,
    match cause with
    | .assignmentTarget => some "Only variables, fields and indexed elements can be assigned"
    | .unclosedBlock _ => some "Close the block with 'end'"
    | _ => none⟩

def text (e : ParseError) : String :=
  "Parse error at " ++ e.span.text ++ ": " ++ e.cause.message ++
    match e.suggestion with
    | some s => "\n  Suggestion: " ++ s
    | none => ""

end ParseError
end ScriptEngine
