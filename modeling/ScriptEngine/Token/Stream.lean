import ScriptEngine.Token.Lexeme

/-!
# Token streams

`tokenize` reads a whole text.  The expressions embedded in a double-quoted string are read in the
same way from their own text, and their spans are then moved by the offset of the hole and the line
of the string; if one of them cannot be read, its first error stands for the string.  After an error
in a string the reading goes on at the end of the line, after any other error behind the piece.

Reading is by structural recursion on bounds that the length of the text supplies: a text of `n`
characters holds at most `n` lexemes and nests at most `n` strings deep.
-/

namespace ScriptEngine

/-- What has been read of a text so far, last things first. -/
structure Reading where
  tokens : List LocatedToken
  errors : List LexError

/-- The outcome of reading a text: its tokens, or all that is wrong with it. -/
abbrev TokenResult := Except (List LexError) (List LocatedToken)

/-- The parts of a template: raw text is unescaped, holes are read by `inner` and moved.  The
offset is that of the first part, the line that of the string. -/
def templateParts (inner : List Char → TokenResult) (line : Nat) :
    Nat → List RawPart → Except LexError (List TemplatePart)
  | _, [] => .ok []
  | offset, .text raw :: ps => do
    let rest ← templateParts inner line (offset + byteLength raw) ps
    return .text (String.ofList (unescape raw)) :: rest
  | offset, .hole cs :: ps => do
    let tokens ← match inner cs with
      | .ok ts => .ok (ts.map fun t => (t.1, t.2.shift (offset + 2) line))
      | .error (e :: _) => .error e
      | .error [] => .ok []
    let rest ← templateParts inner line (offset + byteLength cs + 3) ps
    return .hole tokens :: rest

/-- Reads a double-quoted string after its opening quote, which stands at `p`: the token and the
text after the closing quote. -/
def quotedToken (inner : List Char → TokenResult) (p : Place) (cs : List Char) :
    Except LexError (Token × List Char) := do
  let scanned := quotedParts cs
  let stop := p.offset + 1 + byteLength cs
  match scanned.2, scanned.1 with
  | .closed rest, [] => return (.string "", rest)
  | .closed rest, [.text raw] => return (.string (String.ofList (unescape raw)), rest)
  | .closed rest, ps =>
    let parts ← templateParts inner p.line (p.offset + 1) ps
    return (.template parts, rest)
  | .unterminatedString, ps =>
    let _ ← templateParts inner p.line (p.offset + 1) ps
    throw ⟨.unterminatedString, ⟨p.offset, stop, p.line, 1⟩⟩
  | .unterminatedHole, ps =>
    let _ ← templateParts inner p.line (p.offset + 1) ps
    let start := p.offset + 1 + byteLength (ps.flatMap RawPart.chars)
    throw ⟨.unterminatedInterpolation, ⟨start, stop, p.line, 1⟩⟩

/-- Reads lexemes until the text or the bound on their number is used up. -/
def readAll (inner : List Char → TokenResult) :
    Nat → List Char → Place → Reading → Reading × Place
  | 0, _, p, acc => (acc, p)
  | fuel + 1, cs, p, acc =>
    let blank := blankText .code cs
    let p := p.advanceBlank blank.1
    match blank.2 with
    | [] => (acc, p)
    | '"' :: r =>
      match quotedToken inner p r with
      | .ok (token, rest) =>
        let taken := ('"' :: r).take (r.length + 1 - rest.length)
        let span := Span.ofText p taken
        readAll inner fuel rest (p.advance taken) { acc with tokens := (token, span) :: acc.tokens }
      | .error e =>
        let skipped := ('"' :: r).takeWhile (· != '\n')
        let rest := ('"' :: r).dropWhile (· != '\n')
        readAll inner fuel rest (p.advanceBlank skipped) { acc with errors := e :: acc.errors }
    | rest =>
      let l := lexeme rest
      let span := Span.ofText p l.taken
      let acc' : Reading := match l.token with
        | .ok t => { acc with tokens := (t, span) :: acc.tokens }
        | .error c => { acc with errors := ⟨c, span⟩ :: acc.errors }
      readAll inner fuel l.rest (p.advance l.taken) acc'

/-- Reads a text whose strings nest at most to the given depth. -/
def tokenizeNested : Nat → List Char → TokenResult
  | 0, _ => .ok []
  | depth + 1, cs =>
    let result := readAll (tokenizeNested depth) (cs.length + 1) cs .origin ⟨[], []⟩
    if result.1.errors.isEmpty then
      .ok (((Token.eof, Span.atPlace result.2) :: result.1.tokens).reverse)
    else .error result.1.errors.reverse

/-- The tokens of a text, the end of the text last. -/
def tokenize (source : String) : TokenResult :=
  let cs := source.toList
  tokenizeNested (cs.length + 1) cs

end ScriptEngine
