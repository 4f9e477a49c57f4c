/-!
# Places in a source text

A `Place` is a point of the text: a byte offset, a line and a column, the latter two from one.  A
`Span` is a stretch of the text with the line and column of its start.

Inside code a column is a character; blanks and comments advance it by bytes.
-/

namespace ScriptEngine

/-- A point in a source text. -/
structure Place where
  offset : Nat
  line : Nat
  column : Nat
  deriving Repr, DecidableEq, Inhabited

/-- A stretch of a source text. -/
structure Span where
  start : Nat
  stop : Nat
  line : Nat
  column : Nat
  deriving Repr, DecidableEq, Inhabited

namespace Place

/-- The first point of a text. -/
def origin : Place := ⟨0, 1, 1⟩

/-- The point after a character of code. -/
def step (p : Place) (c : Char) : Place :=
  if c = '\n' then ⟨p.offset + 1, p.line + 1, 1⟩
  else ⟨p.offset + c.utf8Size, p.line, p.column + 1⟩

/-- The point after a piece of code. -/
def advance (p : Place) (cs : List Char) : Place := cs.foldl step p

/-- The point after a character of a blank or comment. -/
def stepBlank (p : Place) (c : Char) : Place :=
  if c = '\n' then ⟨p.offset + 1, p.line + 1, 1⟩
  else ⟨p.offset + c.utf8Size, p.line, p.column + c.utf8Size⟩

/-- The point after blanks and comments. -/
def advanceBlank (p : Place) (cs : List Char) : Place := cs.foldl stepBlank p

end Place

/-- The number of bytes of a text. -/
def byteLength : List Char → Nat
  | [] => 0
  | c :: rest => c.utf8Size + byteLength rest

namespace Span

/-- The span of a piece of code that starts at a place. -/
def ofText (p : Place) (cs : List Char) : Span :=
  ⟨p.offset, p.offset + byteLength cs, p.line, p.column⟩

def atPlace (p : Place) : Span := ⟨p.offset, p.offset, p.line, p.column⟩

/-- The least span that covers two spans. -/
def merge (a b : Span) : Span :=
  ⟨min a.start b.start, max a.stop b.stop, min a.line b.line, min a.column b.column⟩

/-- A span of an embedded text, seen from the text around it. -/
def shift (s : Span) (offset line : Nat) : Span :=
  ⟨s.start + offset, s.stop + offset, line + s.line - 1, s.column⟩

/-- A span as error texts name it. -/
def text (s : Span) : String := s!"{s.line}:{s.column}"

end Span
end ScriptEngine
