import ScriptEngine.Decimal.Text
import ScriptEngine.Source.Span

/-!
# Tokens

A token is a keyword, a mark (operator or punctuation), a literal, a name, or the end of the text.
A template is a string with embedded expressions, each held as the tokens of the expression.

* `Keyword.ofText?` and `Mark.text` tie the words and marks to their spelling.
* `Token.text` is how error texts quote a token.
-/

namespace ScriptEngine

/-- The reserved words. -/
inductive Keyword
  | varKw | letKw | constKw | finalKw | publicKw | privateKw | protectedKw | staticKw | defKw
  | interfaceKw | classKw | importKw | implementsKw | abstractKw | sealedKw | extendsKw | enumKw
  | recordKw | returnKw | ifKw | elifKw | elseKw | forKw | inKw | whereKw | breakKw | continueKw
  | loopKw | endKw | doKw | switchKw | caseKw | defaultKw | tryKw | catchKw | finallyKw | throwKw
  | deferKw | threadKw | spawnKw | joinKw | channelKw | selectKw | closedKw | instanceofKw
  | thisKw | superKw | outKw | trueKw | falseKw | nilKw
  deriving Repr, DecidableEq, Inhabited

namespace Keyword

/-- The spelling of a reserved word. -/
def text : Keyword → String
  | varKw => "var"
  | letKw => "let"
  | constKw => "const"
  | finalKw => "final"
  | publicKw => "public"
  | privateKw => "private"
  | protectedKw => "protected"
  | staticKw => "static"
  | defKw => "def"
  | interfaceKw => "interface"
  | classKw => "class"
  | importKw => "import"
  | implementsKw => "implements"
  | abstractKw => "abstract"
  | sealedKw => "sealed"
  | extendsKw => "extends"
  | enumKw => "enum"
  | recordKw => "record"
  | returnKw => "return"
  | ifKw => "if"
  | elifKw => "elif"
  | elseKw => "else"
  | forKw => "for"
  | inKw => "in"
  | whereKw => "where"
  | breakKw => "break"
  | continueKw => "continue"
  | loopKw => "loop"
  | endKw => "end"
  | doKw => "do"
  | switchKw => "switch"
  | caseKw => "case"
  | defaultKw => "default"
  | tryKw => "try"
  | catchKw => "catch"
  | finallyKw => "finally"
  | throwKw => "throw"
  | deferKw => "defer"
  | threadKw => "thread"
  | spawnKw => "spawn"
  | joinKw => "join"
  | channelKw => "channel"
  | selectKw => "select"
  | closedKw => "closed"
  | instanceofKw => "instanceof"
  | thisKw => "this"
  | superKw => "super"
  | outKw => "out"
  | trueKw => "true"
  | falseKw => "false"
  | nilKw => "nil"

def all : List Keyword :=
  [varKw, letKw, constKw, finalKw, publicKw, privateKw, protectedKw, staticKw, defKw,
   interfaceKw, classKw, importKw, implementsKw, abstractKw, sealedKw, extendsKw, enumKw,
   recordKw, returnKw, ifKw, elifKw, elseKw, forKw, inKw, whereKw, breakKw, continueKw, loopKw,
   endKw, doKw, switchKw, caseKw, defaultKw, tryKw, catchKw, finallyKw, throwKw, deferKw,
   threadKw, spawnKw, joinKw, channelKw, selectKw, closedKw, instanceofKw, thisKw, superKw,
   outKw, trueKw, falseKw, nilKw]

/-- The reserved word with a spelling; the access words have short spellings too. -/
def ofText? (s : String) : Option Keyword :=
  if s = "pub" then some publicKw
  else if s = "priv" then some privateKw
  else if s = "prot" then some protectedKw
  else all.find? (fun k => k.text == s)

/-- Whether a word closes or continues the block around it. -/
def endsBlock : Keyword → Bool
  | endKw | elifKw | elseKw | catchKw | finallyKw | caseKw | defaultKw => true
  | _ => false

/-- Whether a word may name a member after a dot. -/
def canNameMember : Keyword → Bool
  | catchKw | finallyKw | defaultKw | joinKw | selectKw | closedKw | channelKw | spawnKw
  | threadKw | importKw | recordKw | enumKw | outKw | inKw | whereKw | loopKw | deferKw => true
  | _ => false

end Keyword

/-- Operators and punctuation. -/
inductive Mark
  | equal | colonEqual | plusEqual | minusEqual | starEqual | slashEqual | plus | minus | star
  | slash | percent | equalEqual | bangEqual | less | lessEqual | greater | greaterEqual | ampAmp
  | pipePipe | bang | fatArrow | arrow | pipe | question | atSign | leftParen | rightParen
  | leftBrace | rightBrace | leftBracket | rightBracket | comma | colon | semicolon | dot
  | dotDotDot
  deriving Repr, DecidableEq, Inhabited

namespace Mark

def text : Mark → String
  | equal => "="
  | colonEqual => ":="
  | plusEqual => "+="
  | minusEqual => "-="
  | starEqual => "*="
  | slashEqual => "/="
  | plus => "+"
  | minus => "-"
  | star => "*"
  | slash => "/"
  | percent => "%"
  | equalEqual => "=="
  | bangEqual => "!="
  | less => "<"
  | lessEqual => "<="
  | greater => ">"
  | greaterEqual => ">="
  | ampAmp => "&&"
  | pipePipe => "||"
  | bang => "!"
  | fatArrow => "=>"
  | arrow => "->"
  | pipe => "|"
  | question => "?"
  | atSign => "@"
  | leftParen => "("
  | rightParen => ")"
  | leftBrace => "\x7b"
  | rightBrace => "\x7d"
  | leftBracket => "["
  | rightBracket => "]"
  | comma => ","
  | colon => ":"
  | semicolon => ";"
  | dot => "."
  | dotDotDot => "..."

def name : Mark → String
  | equal => "equal"
  | colonEqual => "colonEqual"
  | plusEqual => "plusEqual"
  | minusEqual => "minusEqual"
  | starEqual => "starEqual"
  | slashEqual => "slashEqual"
  | plus => "plus"
  | minus => "minus"
  | star => "star"
  | slash => "slash"
  | percent => "percent"
  | equalEqual => "equalEqual"
  | bangEqual => "bangEqual"
  | less => "less"
  | lessEqual => "lessEqual"
  | greater => "greater"
  | greaterEqual => "greaterEqual"
  | ampAmp => "ampAmp"
  | pipePipe => "pipePipe"
  | bang => "bang"
  | fatArrow => "fatArrow"
  | arrow => "arrow"
  | pipe => "pipe"
  | question => "question"
  | atSign => "at"
  | leftParen => "leftParen"
  | rightParen => "rightParen"
  | leftBrace => "leftBrace"
  | rightBrace => "rightBrace"
  | leftBracket => "leftBracket"
  | rightBracket => "rightBracket"
  | comma => "comma"
  | colon => "colon"
  | semicolon => "semicolon"
  | dot => "dot"
  | dotDotDot => "dotDotDot"

end Mark

mutual

/-- A token of the language. -/
inductive Token
  | keyword (word : Keyword)
  | mark (mark : Mark)
  | int (value : Int64)
  | float (value : Decimal.Double)
  | string (value : String)
  | template (parts : List TemplatePart)
  | identifier (name : String)
  | eof

/-- A part of a template: plain text, or the tokens of an embedded expression. -/
inductive TemplatePart
  | text (value : String)
  | hole (tokens : List (Token × Span))

end

instance : Inhabited Token := ⟨.eof⟩

/-- A token with its place. -/
abbrev LocatedToken := Token × Span

namespace Token

def isMark (m : Mark) : Token → Bool
  | mark m' => m == m'
  | _ => false

/-- Whether a token is the given reserved word. -/
def isKeyword (k : Keyword) : Token → Bool
  | keyword k' => k == k'
  | _ => false

/-- Whether a token is the end of the text. -/
def isEof : Token → Bool
  | eof => true
  | _ => false

def isReserved : Token → Bool
  | keyword _ => true
  | _ => false

/-- Whether a token closes or continues the block around it. -/
def endsBlock : Token → Bool
  | keyword k => k.endsBlock
  | eof => true
  | _ => false

/-- The spelling of a reserved word that may name a member after a dot. -/
def memberWord? : Token → Option String
  | keyword k => if k.canNameMember then some k.text else none
  | _ => none

/-- A token as error texts quote it. -/
def text : Token → String
  | keyword k => k.text
  | mark m => m.text
  | int n => toString n
  | float x => Decimal.Layout.literal.write x
  | string s => "\"" ++ s ++ "\""
  | template _ => "interpolated string"
  | identifier name => name
  | eof => "end of file"

end Token
end ScriptEngine
