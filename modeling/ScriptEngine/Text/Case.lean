import ScriptEngine.Text.CaseTable

/-!
# Upper and lower case

The full case mappings of Unicode, without regard to language.  A capital sigma at the end of a word
has a lower case of its own.
-/

namespace ScriptEngine
namespace Text

/-- The image of a code point under the first mapping range that holds it. -/
def mapInRanges (n : Nat) : List (Nat × Nat × Nat × Int) → Option Nat
  | [] => none
  | (first, last, step, delta) :: rest =>
    if first ≤ n && n ≤ last && (n - first) % step == 0 then some (Int.ofNat n + delta).toNat
    else mapInRanges n rest

/-- Whether a code point lies in one of several ranges. -/
def inRanges (n : Nat) (ranges : List (Nat × Nat)) : Bool :=
  ranges.any fun r => r.1 ≤ n && n ≤ r.2

def upperChar (c : Char) : List Char :=
  if c.toNat < 128 then [c.toUpper]
  else
    match CaseTable.upperExpansions.lookup c.toNat with
    | some ns => ns.map Char.ofNat
    | none => [((mapInRanges c.toNat CaseTable.upperRanges).map Char.ofNat).getD c]

/-- The lower case of a character on its own. -/
def lowerChar (c : Char) : List Char :=
  if c.toNat < 128 then [c.toLower]
  else if c.toNat = 0x130 then ['i', Char.ofNat 0x307]
  else [((mapInRanges c.toNat CaseTable.lowerRanges).map Char.ofNat).getD c]

/-- Whether the next character that counts has a case. -/
def thenCased (cs : List Char) : Bool :=
  match cs.dropWhile fun c => inRanges c.toNat CaseTable.ignorableRanges with
  | [] => false
  | c :: _ => inRanges c.toNat CaseTable.casedRanges

/-- The lower case of a text, whose characters before it are given the last one first. -/
def lowerFrom : List Char → List Char → List Char → List Char
  | _, acc, [] => acc.reverse
  | before, acc, c :: rest =>
    let low :=
      if c.toNat = 0x3a3 then
        if thenCased before && !thenCased rest then [Char.ofNat 0x3c2] else [Char.ofNat 0x3c3]
      else lowerChar c
    lowerFrom (c :: before) (low.reverse ++ acc) rest

/-- The upper case of a text. -/
def upper (s : String) : String := String.ofList (s.toList.flatMap upperChar)

/-- The lower case of a text. -/
def lower (s : String) : String := String.ofList (lowerFrom [] [] s.toList)

end Text
end ScriptEngine
