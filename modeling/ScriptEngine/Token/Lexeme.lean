import ScriptEngine.Token.Quoted

/-!
# Lexemes

`blankText` takes the blanks and comments in front of a token, and `lexeme` reads one token other
than a double-quoted string: the longest piece of text that is a word, a number, a single-quoted
string or a mark.  A piece that is none of them is reported as unexpected.
-/

namespace ScriptEngine

/-- Where the scan of blanks stands. -/
inductive BlankMode
  | code
  | lineComment
  | blockComment
  deriving Repr, DecidableEq

/-- The blanks and comments at the start of a text, and the rest.  A block comment that is not
closed reaches to the end. -/
def blankText : BlankMode → List Char → List Char × List Char
  | _, [] => ([], [])
  | .code, '/' :: '/' :: r =>
    let p := blankText .lineComment r
    ('/' :: '/' :: p.1, p.2)
  | .code, '/' :: '*' :: r =>
    let p := blankText .blockComment r
    ('/' :: '*' :: p.1, p.2)
  | .code, c :: r =>
    if c = ' ' ∨ c = '\t' ∨ c = '\r' ∨ c = '\n' then
      let p := blankText .code r
      (c :: p.1, p.2)
    else ([], c :: r)
  | .lineComment, c :: r =>
    let p := blankText (if c = '\n' then .code else .lineComment) r
    (c :: p.1, p.2)
  | .blockComment, '*' :: '/' :: r =>
    let p := blankText .code r
    ('*' :: '/' :: p.1, p.2)
  | .blockComment, c :: r =>
    let p := blankText .blockComment r
    (c :: p.1, p.2)

/-- One lexeme: the text it takes, the text after it, and the token or what is wrong. -/
structure Lexeme where
  taken : List Char
  rest : List Char
  token : Except LexCause Token

def isNameStart (c : Char) : Bool := c.isAlpha || c == '_'

/-- Letters and digits of names. -/
def isNamePart (c : Char) : Bool := c.isAlphanum || c == '_'

def isHexDigit (c : Char) : Bool :=
  c.isDigit || ('a' ≤ c && c ≤ 'f') || ('A' ≤ c && c ≤ 'F')

def isBinaryDigit (c : Char) : Bool := c == '0' || c == '1'

/-- Takes what continues digit groups: digits, each with at most one underscore before it. -/
def moreDigits (p : Char → Bool) : List Char → List Char × List Char
  | '_' :: d :: r =>
    if p d then
      let q := moreDigits p r
      ('_' :: d :: q.1, q.2)
    else ([], '_' :: d :: r)
  | c :: r =>
    if p c then
      let q := moreDigits p r
      (c :: q.1, q.2)
    else ([], c :: r)
  | [] => ([], [])

/-- Takes digits in groups separated by single underscores. -/
def digitGroups (p : Char → Bool) : List Char → List Char × List Char
  | c :: r =>
    if p c then
      let q := moreDigits p r
      (c :: q.1, q.2)
    else ([], c :: r)
  | [] => ([], [])

/-- Takes an exponent, when one is complete. -/
def exponentText (cs : List Char) : List Char × List Char :=
  match cs with
  | e :: r =>
    if e = 'e' ∨ e = 'E' then
      let sign : List Char × List Char :=
        match r with
        | c :: r' => if c = '+' ∨ c = '-' then ([c], r') else ([], r)
        | [] => ([], [])
      let digits := sign.2.takeWhile Char.isDigit
      if digits.isEmpty then ([], cs)
      else (e :: sign.1 ++ digits, sign.2.dropWhile Char.isDigit)
    else ([], cs)
  | [] => ([], [])

/-- Takes a point and the digit groups after it, when there are some. -/
def fractionText (cs : List Char) : List Char × List Char :=
  match cs with
  | '.' :: r =>
    let q := digitGroups Char.isDigit r
    if q.1.isEmpty then ([], cs) else ('.' :: q.1, q.2)
  | _ => ([], cs)

/-- The value of a digit in a base up to sixteen. -/
def digitValue (c : Char) : Nat :=
  if c.isDigit then c.toNat - 48 else c.toLower.toNat - 87

def groupsValue (base : Nat) (cs : List Char) : Nat :=
  (cs.filter (· != '_')).foldl (fun n c => n * base + digitValue c) 0

/-- An integer literal, when its value fits a 64-bit word. -/
def intToken (taken : List Char) (value : Nat) : Except LexCause Token :=
  if value < 0x8000000000000000 then .ok (.int (Int64.ofNat value))
  else .error (.invalidNumber (String.ofList taken))

/-- Reads a number.  An underscore right after the digits of a whole number belongs to it. -/
def numberLexeme (cs : List Char) : Lexeme :=
  let based (start : List Char) (q : List Char × List Char) (base : Nat) : Lexeme :=
    let taken := start ++ q.1
    ⟨taken, q.2, intToken taken (groupsValue base q.1)⟩
  let decimal : Lexeme :=
    let whole := digitGroups Char.isDigit cs
    match whole.2 with
    | '_' :: r =>
      let taken := whole.1 ++ ['_']
      ⟨taken, r, intToken taken (groupsValue 10 taken)⟩
    | _ =>
    let frac := fractionText whole.2
    let expo := exponentText frac.2
    let taken := whole.1 ++ frac.1 ++ expo.1
    if frac.1.isEmpty && expo.1.isEmpty then
      ⟨taken, expo.2, intToken taken (groupsValue 10 taken)⟩
    else
      let value := Decimal.readUnsigned? false (taken.filter (· != '_'))
      ⟨taken, expo.2, .ok (.float (value.getD ⟨0⟩))⟩
  match cs with
  | '0' :: 'x' :: r =>
    let q := digitGroups isHexDigit r
    if q.1.isEmpty then decimal else based ['0', 'x'] q 16
  | '0' :: 'b' :: r =>
    let q := digitGroups isBinaryDigit r
    if q.1.isEmpty then decimal else based ['0', 'b'] q 2
  | _ => decimal

/-- Scans a single-quoted string after its opening quote: the raw text, the text after it, and
whether the closing quote was found.  The scan stops before a backslash that escapes nothing. -/
def singleQuoted : List Char → List Char × List Char × Bool
  | [] => ([], [], false)
  | '\'' :: r => ([], r, true)
  | '\\' :: [] => ([], ['\\'], false)
  | '\\' :: c :: r =>
    if c = '\n' then ([], '\\' :: c :: r, false)
    else
      let p := singleQuoted r
      ('\\' :: c :: p.1, p.2)
  | c :: r =>
    let p := singleQuoted r
    (c :: p.1, p.2)

/-- The marks in the order in which they are tried: of two that fit, the longer comes first. -/
def marksByLength : List Mark :=
  [.dotDotDot,
   .colonEqual, .plusEqual, .minusEqual, .starEqual, .slashEqual, .equalEqual, .bangEqual,
   .lessEqual, .greaterEqual, .ampAmp, .pipePipe, .fatArrow, .arrow,
   .equal, .plus, .minus, .star, .slash, .percent, .less, .greater, .bang, .pipe, .question,
   .atSign, .leftParen, .rightParen, .leftBrace, .rightBrace, .leftBracket, .rightBracket, .comma,
   .colon, .semicolon, .dot]

/-- Takes a given spelling off a text. -/
def takeExactly? : List Char → List Char → Option (List Char)
  | [], cs => some cs
  | _ :: _, [] => none
  | p :: ps, c :: cs => if p = c then takeExactly? ps cs else none

/-- Reads the longest mark. -/
def markLexeme? (cs : List Char) : Option Lexeme :=
  marksByLength.findSome? fun m =>
    (takeExactly? m.text.toList cs).map fun rest => ⟨m.text.toList, rest, .ok (.mark m)⟩

/-- Reads one lexeme of a text that starts neither with a blank nor with a double quote. -/
def lexeme (cs : List Char) : Lexeme :=
  match cs with
  | [] => ⟨[], [], .ok .eof⟩
  | c :: r =>
    if isNameStart c then
      let word := cs.takeWhile isNamePart
      let text := String.ofList word
      let token := match Keyword.ofText? text with
        | some k => Token.keyword k
        | none => Token.identifier text
      ⟨word, cs.dropWhile isNamePart, .ok token⟩
    else if c.isDigit then numberLexeme cs
    else if c = '\'' then
      let q := singleQuoted r
      if q.2.2 then
        ⟨c :: q.1 ++ ['\''], q.2.1, .ok (.string (String.ofList (unescape q.1)))⟩
      else ⟨c :: q.1, q.2.1, .error (.unexpectedCharacter c)⟩
    else
      match markLexeme? cs with
      | some l => l
      | none => ⟨[c], r, .error (.unexpectedCharacter c)⟩

end ScriptEngine
