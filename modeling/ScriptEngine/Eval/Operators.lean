import ScriptEngine.Decimal.Binary
import ScriptEngine.Eval.Monad
import ScriptEngine.Text.Search

/-!
# Operators

The operators on values.  Integers are words of 64 bits and wrap around; a float makes the other
operand a float.  Numbers compare with numbers and strings with strings.

* `rangeValues` lists the integers from one to another.
* `repeatFault?` and `rangeFault?` keep what operators build within `maxSequenceLength`.
-/

namespace ScriptEngine
namespace Eval

/-- The fault of operands that an operator does not take. -/
def operandFault (h : Heap) (op : BinaryOp) (a b : Value) : Cause :=
  .type s!"unsupported operand types for {op.symbol}: {h.typeName a} and {h.typeName b}"

/-- An operator on two numbers, at least one of which is a float. -/
def arithmetic (h : Heap) (op : BinaryOp) (f : Decimal.Double → Decimal.Double → Decimal.Double)
    (a b : Value) : Except Cause Value :=
  match a.asDouble?, b.asDouble? with
  | some x, some y => .ok (.float (f x y))
  | _, _ => .error (operandFault h op a b)

def compareValues (h : Heap) (a b : Value) : Except Cause (Option Ordering) :=
  match a, b with
  | .int x, .int y => .ok (some (compare x y))
  | .str x, .str y => .ok (some (if x < y then .lt else if x = y then .eq else .gt))
  | a, b =>
    match a.asDouble?, b.asDouble? with
    | some x, some y => .ok (x.order y)
    | _, _ => .error (.type s!"cannot compare {h.typeName a} and {h.typeName b}")

def orderAnswers (op : BinaryOp) : Option Ordering → Bool
  | none => false
  | some o =>
    match op with
    | .less => o == .lt
    | .lessEqual => o != .gt
    | .greater => o == .gt
    | _ => o != .lt

/-- The fault of a text that would become too long by repetition. -/
def repeatFault? (s : String) (count : Nat) (asked : Int64) : Option Cause :=
  if s.utf8ByteSize * count ≤ maxSequenceLength then none
  else some (.sizeLimit s!"string repeated {asked} times")

def repeated (s : String) (n : Int64) : Except Cause Value :=
  let count := n.toInt.toNat
  match repeatFault? s count n with
  | some c => .error c
  | none => .ok (.str (Text.times s count))

/-- An operator other than addition on two values. -/
def operate (h : Heap) (op : BinaryOp) (a b : Value) : Except Cause Value :=
  match op with
  | .equal => .ok (.bool (h.equals a b))
  | .notEqual => .ok (.bool (!h.equals a b))
  | .less | .lessEqual | .greater | .greaterEqual =>
    (compareValues h a b).map fun o => .bool (orderAnswers op o)
  | .add => arithmetic h op (· + ·) a b
  | .subtract =>
    match a, b with
    | .int x, .int y => .ok (.int (x - y))
    | a, b => arithmetic h op (· - ·) a b
  | .multiply =>
    match a, b with
    | .int x, .int y => .ok (.int (x * y))
    | .str s, .int n => repeated s n
    | .int n, .str s => repeated s n
    | a, b => arithmetic h op (· * ·) a b
  | .divide =>
    match a, b with
    | .int x, .int y => if y = 0 then .error .divisionByZero else .ok (.int (x / y))
    | a, b => arithmetic h op (· / ·) a b
  | .modulo =>
    match a, b with
    | .int x, .int y => if y = 0 then .error .divisionByZero else .ok (.int (x % y))
    | a, b => arithmetic h op Decimal.remainder a b

/-- A binary operator; what is added to a text is written first. -/
def binaryOp (E : Engine) (op : BinaryOp) (a b : Value) : Eval Value := do
  match op, a, b with
  | .add, .int x, .int y => pure (.int (x + y))
  | .add, .str _, _ | .add, _, .str _ => do
    let left ← E.text a
    let right ← E.text b
    pure (.str (left ++ right))
  | .add, .array i, .array j => change fun h => h.newArray (h.array i ++ h.array j)
  | op, a, b => ofExcept (operate (← heap) op a b)

def negate (v : Value) : Eval Value := do
  match v with
  | .int i => pure (.int (-i))
  | .float x => pure (.float (-x))
  | v => fault (.type s!"bad operand type for unary -: {(← heap).typeName v}")

def progression (start step : Int) (count : Nat) : Array Value :=
  (Array.range count).map fun i => .int (Int64.ofInt (start + step * Int.ofNat i))

/-- The integers from one to another, both included. -/
def rangeValues (first last : Int64) : Except Cause (Array Value) :=
  let count := (last.toInt - first.toInt + 1).toNat
  if maxSequenceLength < count then .error (.sizeLimit s!"range {first}...{last}")
  else .ok (progression first.toInt 1 count)

/-- The place that an index stands for in a sequence of a length. -/
def indexOf (h : Heap) (key : Value) (length : Nat) : Except Cause Nat :=
  match key with
  | .int i =>
    if 0 ≤ i.toInt ∧ i.toInt < length then .ok i.toInt.toNat else .error (.index i length)
  | v => .error (.mismatch "Int index" (h.typeName v))

end Eval
end ScriptEngine
