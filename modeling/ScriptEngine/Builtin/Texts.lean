import ScriptEngine.Builtin.Basic
import ScriptEngine.Text.Case

/-!
# Methods of strings

Places and lengths count characters; the size limit counts bytes.

* `stringMethod` answers a method whose result needs no new array; `stringPieces` the others.
-/

namespace ScriptEngine
namespace Builtin

/-- The number that digits write. -/
def readDigits? (ds : List Char) : Option Nat :=
  if !ds.isEmpty && ds.all Char.isDigit then some (Decimal.digitsValue ds) else none

def readSigned? (cs : List Char) : Option Int :=
  match cs with
  | '-' :: ds => (readDigits? ds).map fun n => -(Int.ofNat n)
  | '+' :: ds => (readDigits? ds).map Int.ofNat
  | ds => (readDigits? ds).map Int.ofNat

/-- An integer within the range of a word. -/
def inWord? (n : Int) : Option Int64 :=
  if Int64.minValue.toInt ≤ n ∧ n ≤ Int64.maxValue.toInt then some (Int64.ofInt n) else none

/-- A text as an integer; the text of a float is cut off at the point. -/
def readInt? (s : String) : Option Int64 :=
  let t := Text.trim s
  ((readSigned? t.toList).bind inWord?) <|>
    (Decimal.readDouble? t).bind fun x => if x.isFinite then some x.toInt64 else none

def readNumber? (s : String) : Option Decimal.Double := Decimal.readDouble? (Text.trim s)

/-- An integer kept between two natural numbers. -/
def clamp (n : Int64) (low high : Nat) : Nat := max low (min n.toInt.toNat high)

/-- The part of a string from a place on. -/
def substring (h : Heap) (s : String) (args : List Value) : Except Cause Value := do
  takesBetween args 1 2
  let start := clamp (← intAt h args 0 "substring") 0 s.length
  let stop ←
    match args[1]? with
    | some _ => (intAt h args 1 "substring").map fun n => clamp n start s.length
    | none => pure s.length
  pure (.str (Text.slice s start (stop - start)))

/-- A string repeated so many times. -/
def repeatString (h : Heap) (s : String) (args : List Value) : Except Cause Value := do
  let n ← intAt h args 0 "repeat"
  if n.toInt < 0 then throw (.other s!"repeat count must be >= 0, got {n}")
  Eval.repeated s n

/-- A string filled up to a width. -/
def padString (h : Heap) (s : String) (name : String) (args : List Value) :
    Except Cause Value := do
  takesBetween args 1 2
  let width := (← intAt h args 0 name).toInt.toNat
  if maxSequenceLength < width then throw (.sizeLimit s!"{name} width {width}")
  let fill ←
    match args[1]? with
    | some _ => stringAt h args 1 name
    | none => pure " "
  pure (.str (Text.pad s width fill (name == "padStart")))

/-- The character at a place, or the empty string. -/
def charAt (s : String) (i : Int64) : String :=
  if i.toInt < 0 then "" else Text.slice s i.toInt.toNat 1

/-- The result of a method of strings that makes no array. -/
def stringMethod (h : Heap) (s : String) (name : String) (args : List Value) :
    Except Cause Value :=
  match name with
  | "length" | "size" => do
    takesExactly args 0
    pure (count s.length)
  | "isEmpty" => pure (.bool s.isEmpty)
  | "charAt" => do pure (.str (charAt s (← intAt h args 0 "charAt")))
  | "indexOf" => do pure (place (Text.indexOf? s (← stringAt h args 0 "indexOf")))
  | "lastIndexOf" => do pure (place (Text.lastIndexOf? s (← stringAt h args 0 "lastIndexOf")))
  | "substring" => substring h s args
  | "toUpperCase" => pure (.str (Text.upper s))
  | "toLowerCase" => pure (.str (Text.lower s))
  | "trim" => pure (.str (Text.trim s))
  | "startsWith" => do pure (.bool (Text.startsWith s (← stringAt h args 0 "startsWith")))
  | "endsWith" => do pure (.bool (Text.endsWith s (← stringAt h args 0 "endsWith")))
  | "contains" => do pure (.bool (Text.contains s (← stringAt h args 0 "contains")))
  | "replace" => do
    takesExactly args 2
    let needle ← stringAt h args 0 "replace"
    let other ← stringAt h args 1 "replace"
    pure (.str (Text.replaceAll s needle other))
  | "repeat" => repeatString h s args
  | "padStart" | "padEnd" => padString h s name args
  | "toInt" =>
    match readInt? s with
    | some i => pure (.int i)
    | none => throw (.type s!"cannot convert '{s}' to Int")
  | "toFloat" =>
    match readNumber? s with
    | some x => pure (.float x)
    | none => throw (.type s!"cannot convert '{s}' to Float")
  | "equals" => pure (.bool (h.equals (.str s) (argument args 0)))
  | "toString" => pure (.str s)
  | _ => throw (.missingMember "String" name)

/-- The strings that a method of strings cuts a string into. -/
def stringPieces (h : Heap) (s : String) (name : String) (args : List Value) :
    Except Cause (Option (List String)) :=
  match name with
  | "chars" => pure (some (s.toList.map String.singleton))
  | "split" =>
    match args with
    | [] => pure (some (Text.words s))
    | _ => do pure (some (Text.split s (← stringAt h args 0 "split")))
  | _ => pure none

def callString (s : String) (name : String) (args : List Value) : Eval Value := do
  let h ← Eval.heap
  match ← Eval.ofExcept (stringPieces h s name args) with
  | some parts => Eval.makeArray (parts.map .str)
  | none => Eval.ofExcept (stringMethod h s name args)

end Builtin
end ScriptEngine
