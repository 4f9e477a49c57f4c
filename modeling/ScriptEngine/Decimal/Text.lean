import ScriptEngine.Decimal.Shortest

/-!
# Written numbers

How a double is written.  The digits come from `shortest`; a `Layout` says which decimal exponents
are written positionally and how the values that are no numbers are spelled.

* `Layout.value` writes the values that programs print, `Layout.literal` the literals that error
  texts quote.
* `fixed` writes a given number of places, `readDouble?` reads a written number.
-/

namespace ScriptEngine
namespace Decimal

/-- The decisions of a number format. -/
structure Layout where
  /-- The range of decimal exponents, ends included, that are written positionally. -/
  positional : Option (Int × Int)
  nan : String
  infinity : String
  negativeInfinity : String

/-- Printed values: positional from `1e-4` up to, but not including, `1e21`. -/
def Layout.value : Layout := ⟨some (-4, 20), "NaN", "+Inf", "-Inf"⟩

/-- Quoted literals: always positional. -/
def Layout.literal : Layout := ⟨none, "NaN", "inf", "-inf"⟩

def zeros (n : Nat) : String := String.ofList (List.replicate n '0')

/-- Positional text of a decimal. -/
def Digits.positional (d : Digits) : String :=
  let text := toString d.value
  let len : Int := Int.ofNat text.length
  if d.point ≤ 0 then "0." ++ zeros (-d.point).toNat ++ text
  else if len ≤ d.point then text ++ zeros (d.point - len).toNat
  else
    let chars := text.toList
    String.ofList (chars.take d.point.toNat) ++ "." ++ String.ofList (chars.drop d.point.toNat)

/-- Text of a decimal with one digit before the point and an exponent. -/
def Digits.scientific (d : Digits) : String :=
  match (toString d.value).toList with
  | [] => "0"
  | c :: rest =>
    let frac := if rest.isEmpty then "" else "." ++ String.ofList rest
    String.singleton c ++ frac ++ "e" ++ toString (d.point - 1)

def Layout.write (l : Layout) (x : Double) : String :=
  if x.isNaN then l.nan
  else if x.isInfinite then (if x.isNegative then l.negativeInfinity else l.infinity)
  else
    let sign := if x.isNegative then "-" else ""
    if x.isZero then sign ++ "0"
    else
      let d := shortest (magnitudeBits x.bits)
      match l.positional with
      | none => sign ++ d.positional
      | some (low, high) =>
        if low ≤ d.point - 1 ∧ d.point - 1 ≤ high then sign ++ d.positional
        else sign ++ d.scientific

/-- The text of a double with a fixed number of places, rounded from its exact value; a half goes
to the even neighbour. -/
def fixed (x : Double) (places : Nat) : String :=
  if x.isNaN then "NaN"
  else
    let sign := if x.isNegative then "-" else ""
    if x.isInfinite then sign ++ "inf"
    else
      let q := (Binary.ofBits x.bits).toQuotient
      let scaled := roundQuotient (q.1 * Nat.pow 10 places) q.2
      let whole := toString (scaled / Nat.pow 10 places)
      if places = 0 then sign ++ whole
      else
        let frac := toString (scaled % Nat.pow 10 places)
        sign ++ whole ++ "." ++ zeros (places - frac.length) ++ frac

def digitsValue (cs : List Char) : Nat :=
  cs.foldl (fun n c => n * 10 + (c.toNat - 48)) 0

/-- Reads an exponent: a sign that may be missing and at least one digit. -/
def readExponent? (cs : List Char) : Option Int :=
  let read (ds : List Char) : Option Nat :=
    if ds.isEmpty || !ds.all Char.isDigit then none else some (digitsValue ds)
  match cs with
  | '+' :: ds => (read ds).map Int.ofNat
  | '-' :: ds => (read ds).map (fun n => -Int.ofNat n)
  | ds => (read ds).map Int.ofNat

/-- Reads an unsigned number: digits with at most one point among or around them, and an exponent
that may be missing. -/
def readUnsigned? (negative : Bool) (cs : List Char) : Option Double :=
  let whole := cs.takeWhile Char.isDigit
  let rest := cs.dropWhile Char.isDigit
  let afterPoint : List Char × List Char :=
    match rest with
    | '.' :: r => (r.takeWhile Char.isDigit, r.dropWhile Char.isDigit)
    | r => ([], r)
  if whole.isEmpty && afterPoint.1.isEmpty then none
  else
    let exponent : Option Int :=
      match afterPoint.2 with
      | [] => some 0
      | c :: r => if c = 'e' ∨ c = 'E' then readExponent? r else none
    exponent.map fun e =>
      nearest negative (digitsValue (whole ++ afterPoint.1)) (e - Int.ofNat afterPoint.1.length)

/-- Reads a written double; the words for infinity and for no number count in any case. -/
def readDouble? (text : String) : Option Double :=
  let signed : Bool × List Char :=
    match text.toList with
    | '+' :: r => (false, r)
    | '-' :: r => (true, r)
    | r => (false, r)
  let word := String.ofList (signed.2.map Char.toLower)
  if word = "inf" ∨ word = "infinity" then
    some (Double.infinity signed.1)
  else if word = "nan" then some (Double.nan signed.1)
  else readUnsigned? signed.1 signed.2

end Decimal
end ScriptEngine
