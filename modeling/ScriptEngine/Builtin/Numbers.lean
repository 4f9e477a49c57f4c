import ScriptEngine.Builtin.Basic

/-!
# Methods of numbers
-/

namespace ScriptEngine
namespace Builtin

/-- The absolute value of an integer; the least one is its own. -/
def absInt (i : Int64) : Int64 := if i < 0 then -i else i

/-- A power of an integer by squaring, wrapping around; the fuel is the number of binary digits of
the exponent. -/
def powInt (base : Int64) (exponent : Nat) : Nat → Int64
  | 0 => 1
  | fuel + 1 =>
    if exponent = 0 then 1
    else
      let rest := powInt (base * base) (exponent / 2) fuel
      if exponent % 2 = 1 then base * rest else rest

/-- A power of a number; an integer to a small power stays one. -/
def powNumber (h : Heap) (receiver : Value) (x : Decimal.Double) (args : List Value) :
    Except Cause Value := do
  takesExactly args 1
  match receiver, args with
  | .int base, [.int e] =>
    if 0 ≤ e.toInt ∧ e.toInt < 0x100000000 then pure (.int (powInt base e.toInt.toNat 33))
    else pure (.float (x.pow (← floatAt h args 0 "pow")))
  | _, _ => pure (.float (x.pow (← floatAt h args 0 "pow")))

/-- A number with a fixed number of places. -/
def toFixed (h : Heap) (x : Decimal.Double) (args : List Value) : Except Cause Value := do
  let places := min (← intAt h args 0 "toFixed").toInt.toNat 20
  pure (.str (Decimal.fixed x places))

/-- The methods that integers and floats share. -/
def numberMethod (h : Heap) (receiver : Value) (x : Decimal.Double) (name : String)
    (args : List Value) : Except Cause Value :=
  match name with
  | "sqrt" => pure (.float x.sqrt)
  | "pow" => powNumber h receiver x args
  | "toFloat" => pure (.float x)
  | "toFixed" => toFixed h x args
  | "toString" => pure (.str (h.display receiver))
  | "equals" => pure (.bool (h.equals receiver (argument args 0)))
  | _ => throw (.missingMember receiver.kindName name)

def intMethod (h : Heap) (i : Int64) (name : String) (args : List Value) : Except Cause Value :=
  match name with
  | "abs" => pure (.int (absInt i))
  | "floor" | "ceil" | "round" | "toInt" => pure (.int i)
  | _ => numberMethod h (.int i) (.ofInt64 i) name args

def floatMethod (h : Heap) (x : Decimal.Double) (name : String) (args : List Value) :
    Except Cause Value :=
  match name with
  | "abs" => pure (.float x.abs)
  | "floor" => pure (.float x.floor)
  | "ceil" => pure (.float (x.map Float.ceil))
  | "round" => pure (.float (x.map Float.round))
  | "toInt" => pure (.int x.toInt64)
  | _ => numberMethod h (.float x) x name args

end Builtin
end ScriptEngine
