/-!
# Doubles

A double-precision number is its 64 bits: a sign, eleven bits of exponent and fifty-two of
fraction.  Bits also tell apart what compares as equal or not at all, so zero and NaN have a sign.

* `Double.map` and `Double.map₂` apply an operation on floats: a NaN among the operands passes
  through, and one that arises is negative.
* `Double.order` orders numbers and leaves NaN without an order.
-/

namespace ScriptEngine
namespace Decimal

/-- The bit in front of the stored fraction. -/
def hiddenBit : Nat := 0x10000000000000

/-- The stored exponent of a double, all ones for infinities and NaN. -/
def expField (bits : UInt64) : Nat :=
  ((bits >>> 52) &&& 0x7ff).toNat

/-- The stored fraction of a double. -/
def fracField (bits : UInt64) : Nat :=
  (bits &&& 0xfffffffffffff).toNat

def signBit (bits : UInt64) : Bool :=
  bits >>> 63 == 1

/-- The bits without the sign. -/
def magnitudeBits (bits : UInt64) : UInt64 := bits &&& 0x7fffffffffffffff

/-- Puts a sign on the bits of a magnitude. -/
def withSign (negative : Bool) (bits : UInt64) : UInt64 :=
  if negative then bits ||| 0x8000000000000000 else bits

def infinityBits : UInt64 := 0x7ff0000000000000

/-- A double-precision number. -/
structure Double where
  bits : UInt64
  deriving Repr, DecidableEq, Hashable, Inhabited

namespace Double

def infinity (negative : Bool) : Double := ⟨withSign negative infinityBits⟩

def nan (negative : Bool) : Double := ⟨withSign negative 0x7ff8000000000000⟩

def isNaN (x : Double) : Bool := infinityBits < magnitudeBits x.bits

def isInfinite (x : Double) : Bool := magnitudeBits x.bits == infinityBits

/-- Whether it is a number other than an infinity. -/
def isFinite (x : Double) : Bool := magnitudeBits x.bits < infinityBits

def isZero (x : Double) : Bool := magnitudeBits x.bits == 0

/-- Whether the sign is negative, also of a zero and of NaN. -/
def isNegative (x : Double) : Bool := signBit x.bits

def toFloat (x : Double) : Float := Float.ofBits x.bits

/-- The result of a computation; a NaN that arises is negative. -/
def ofFloat (r : Float) : Double := if r.isNaN then nan true else ⟨r.toBits⟩

def ofInt64 (i : Int64) : Double := ofFloat i.toFloat

/-- The integer part within the range of a word. -/
def toInt64 (x : Double) : Int64 := x.toFloat.toInt64

/-- A function of one number; NaN passes through. -/
def map (f : Float → Float) (x : Double) : Double :=
  if x.isNaN then x else ofFloat (f x.toFloat)

/-- An operation on two numbers; the first NaN passes through. -/
def map₂ (f : Float → Float → Float) (x y : Double) : Double :=
  if x.isNaN then x else if y.isNaN then y else ofFloat (f x.toFloat y.toFloat)

instance : Add Double := ⟨map₂ (· + ·)⟩
instance : Sub Double := ⟨map₂ (· - ·)⟩
instance : Mul Double := ⟨map₂ (· * ·)⟩
instance : Div Double := ⟨map₂ (· / ·)⟩

/-- The negative, which has the other sign. -/
instance : Neg Double := ⟨fun x => ⟨x.bits ^^^ 0x8000000000000000⟩⟩

/-- The absolute value, which has no sign. -/
def abs (x : Double) : Double := ⟨magnitudeBits x.bits⟩

/-- The greatest integer up to the number. -/
def floor (x : Double) : Double := x.map Float.floor

def sqrt (x : Double) : Double := x.map Float.sqrt

/-- Whether two numbers are equal; zeros of both signs are, and NaN equals nothing. -/
def equal (x y : Double) : Bool := x.toFloat == y.toFloat

/-- Whether a number is less than another. -/
def less (x y : Double) : Bool := x.toFloat < y.toFloat

/-- The order of two numbers; NaN has none. -/
def order (x y : Double) : Option Ordering :=
  if x.less y then some .lt else if y.less x then some .gt
  else if x.equal y then some .eq else none

def isInteger (x : Double) : Bool := x.isFinite && x.floor.equal x

/-- Whether the number is an odd integer; half of one is no integer. -/
def isOdd (x : Double) : Bool := x.isInteger && !(x / ofInt64 2).isInteger

/-- A power.  Of NaN an odd one is positive, and the other ones have its sign unless they are one,
as the zeroth is. -/
def pow (x y : Double) : Double :=
  let r := Float.pow x.toFloat y.toFloat
  if !r.isNaN then ofFloat r
  else if x.isNaN then (if y.isOdd then nan false else x)
  else if y.isNaN then y
  else ofFloat r

end Double

end Decimal
end ScriptEngine
