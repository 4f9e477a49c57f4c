/-!
# Looking into texts

Blanks, occurrences and pieces of texts, all counted in characters.

* `trim` and `words` go by the blanks of Unicode.
* `indexOf?` and `lastIndexOf?` find the first and the last occurrence of a text.
* `split` cuts a text at each occurrence of another, from left to right.
* `similarity` tells how alike two words are, from zero to one.  A character pairs with the first equal
  one of the other word that is still free and not far from its place.  The measure is the mean of three
  parts: the part of each word that is paired, and the part of the pairs that stand in one order in both.
* `similarTo` picks what a mistyped word may have meant.
-/

namespace ScriptEngine
namespace Text

def isBlank (c : Char) : Bool :=
  let n := c.toNat
  (9 ≤ n && n ≤ 13) || n == 0x20 || n == 0x85 || n == 0xa0 || n == 0x1680 ||
    (0x2000 ≤ n && n ≤ 0x200a) || n == 0x2028 || n == 0x2029 || n == 0x202f || n == 0x205f ||
    n == 0x3000

/-- Characters without the blanks around them. -/
def trimChars (cs : List Char) : List Char :=
  ((cs.dropWhile isBlank).reverse.dropWhile isBlank).reverse

/-- A text without the blanks around it. -/
def trim (s : String) : String := String.ofList (trimChars s.toList)

/-- The runs of characters between blanks; `run` is the current one, its last character first. -/
def wordsFrom (run : List Char) : List Char → List (List Char)
  | [] => if run.isEmpty then [] else [run.reverse]
  | c :: rest =>
    if isBlank c then
      if run.isEmpty then wordsFrom [] rest else run.reverse :: wordsFrom [] rest
    else wordsFrom (c :: run) rest

def words (s : String) : List String := (wordsFrom [] s.toList).map String.ofList

/-- The place of the first occurrence, where `i` is the place of the first character. -/
def indexFrom? (needle : List Char) (i : Nat) : List Char → Option Nat
  | [] => if needle.isEmpty then some i else none
  | c :: rest => if needle.isPrefixOf (c :: rest) then some i else indexFrom? needle (i + 1) rest

/-- The place of the first occurrence of a text in another. -/
def indexOf? (s needle : String) : Option Nat := indexFrom? needle.toList 0 s.toList

/-- The place of the last occurrence; `found` is the last one before place `i`. -/
def lastIndexFrom? (needle : List Char) (i : Nat) (found : Option Nat) : List Char → Option Nat
  | [] => if needle.isEmpty then some i else found
  | c :: rest =>
    lastIndexFrom? needle (i + 1) (if needle.isPrefixOf (c :: rest) then some i else found) rest

/-- The place of the last occurrence of a text in another. -/
def lastIndexOf? (s needle : String) : Option Nat := lastIndexFrom? needle.toList 0 none s.toList

/-- Whether a text occurs in another. -/
def contains (s needle : String) : Bool := (indexOf? s needle).isSome

/-- Whether a text begins with another. -/
def startsWith (s needle : String) : Bool := needle.toList.isPrefixOf s.toList

/-- Whether a text ends with another. -/
def endsWith (s needle : String) : Bool := needle.toList.reverse.isPrefixOf s.toList.reverse

/-- The pieces of a text between the occurrences of another, which is not empty.  The next `skip`
characters belong to an occurrence; `run` is the current piece, its last character first. -/
def piecesFrom (separator : List Char) : Nat → List Char → List Char → List (List Char)
  | _, run, [] => [run.reverse]
  | skip + 1, run, _ :: rest => piecesFrom separator skip run rest
  | 0, run, c :: rest =>
    if separator.isPrefixOf (c :: rest) then
      run.reverse :: piecesFrom separator (separator.length - 1) [] rest
    else piecesFrom separator 0 (c :: run) rest

/-- The pieces of a text between the occurrences of another; the empty text parts all characters. -/
def split (s separator : String) : List String :=
  if separator.isEmpty then s.toList.map String.singleton
  else (piecesFrom separator.toList 0 [] s.toList).map String.ofList

/-- A text with each occurrence of another replaced; the empty text occurs around each
character. -/
def replaceAll (s needle other : String) : String :=
  if needle.isEmpty then
    other ++ String.join (s.toList.map fun c => String.singleton c ++ other)
  else other.intercalate (split s needle)

/-- The characters of a text from a place on, as many as given. -/
def slice (s : String) (start count : Nat) : String :=
  String.ofList ((s.toList.drop start).take count)

/-- A text followed by copies of another. -/
def repeatOnto (s : String) : Nat → String → String
  | 0, acc => acc
  | n + 1, acc => repeatOnto s n (acc ++ s)

/-- A text so many times; the empty text stays empty. -/
def times (s : String) (n : Nat) : String := if s.isEmpty then "" else repeatOnto s n ""

/-- A text followed by so many characters of another repeated over and over; `rest` is what is left
of the current round. -/
def cycleOnto (fill : List Char) : Nat → List Char → String → String
  | 0, _, acc => acc
  | n + 1, c :: rest, acc => cycleOnto fill n rest (acc.push c)
  | n + 1, [], acc =>
    match fill with
    | [] => acc
    | c :: rest => cycleOnto fill n rest (acc.push c)

/-- A text filled up to a width. -/
def pad (s : String) (width : Nat) (fill : String) (atStart : Bool) : String :=
  if width ≤ s.length || fill.isEmpty then s
  else
    let missing := width - s.length
    if atStart then cycleOnto fill.toList missing [] "" ++ s
    else cycleOnto fill.toList missing [] s

/-! ### Similar words -/

/-- Pairs the characters of a word from a place on with places of another word, at most so far away
from their own; `pairs` are those made before, the last one first. -/
def pairFrom (reach : Nat) (other : List (Char × Nat)) (pairs : List (Char × Nat)) (place : Nat) :
    List Char → List (Char × Nat)
  | [] => pairs.reverse
  | c :: rest =>
    let isFree (d : Char × Nat) : Bool :=
      d.1 == c && place ≤ d.2 + reach && d.2 ≤ place + reach && !pairs.any (·.2 == d.2)
    match other.find? isFree with
    | some d => pairFrom reach other (d :: pairs) (place + 1) rest
    | none => pairFrom reach other pairs (place + 1) rest

/-- How alike two words are. -/
def similarity (a b : List Char) : Float :=
  let reach := max a.length b.length / 2 - 1
  let pairs := pairFrom reach b.zipIdx [] 0 a
  let inOrder := b.zipIdx.filter fun d => pairs.any (·.2 == d.2)
  let crossed := ((pairs.zip inOrder).filter fun p => p.1.1 != p.2.1).length / 2
  let paired := pairs.length.toFloat
  if a.isEmpty && b.isEmpty then 1
  else if pairs.isEmpty then 0
  else
    (paired / a.length.toFloat + paired / b.length.toFloat +
      (pairs.length - crossed).toFloat / paired) / 3

/-- The candidates that are more than seven tenths alike with a word, the closest last; of equally
close ones the first stays first. -/
def similarTo (word : String) (candidates : List String) : List String :=
  let measured := candidates.map fun c => (similarity word.toList c.toList, c)
  let close := measured.filter fun m => 0.7 < m.1
  (close.mergeSort fun a b => a.1 ≤ b.1).map (·.2)

end Text
end ScriptEngine
