import ScriptEngine.Decimal.Double

/-!
# Doubles as exact binary numbers

A finite double is `mant * 2 ^ exp` with an integer mantissa.  Every exact rule about numbers
(shortest text, fixed places, remainder) starts from this view.

* `Binary.ofBits` reads the magnitude of a finite double, `quotientBits` rounds a quotient of
  naturals to the nearest double, a half going to the even neighbour.
* `remainder` is the remainder of the truncating division, computed without rounding.
-/

namespace ScriptEngine
namespace Decimal

/-- The magnitude `mant * 2 ^ exp`. -/
structure Binary where
  mant : Nat
  exp : Int
  deriving Repr, DecidableEq

/-- The exponent of the smallest positive double. -/
def minExp : Int := -1074

namespace Binary

/-- The magnitude of a finite double. -/
def ofBits (bits : UInt64) : Binary :=
  if expField bits = 0 then ⟨fracField bits, minExp⟩
  else ⟨fracField bits + hiddenBit, Int.ofNat (expField bits) - 1075⟩

/-- Numerator and denominator of the magnitude. -/
def toQuotient (b : Binary) : Nat × Nat :=
  if 0 ≤ b.exp then (b.mant * Nat.pow 2 b.exp.toNat, 1) else (b.mant, Nat.pow 2 (-b.exp).toNat)

end Binary

/-- Rounds the quotient `num / den` to the nearest integer, a half to the even one. -/
def roundQuotient (num den : Nat) : Nat :=
  let q := num / den
  let r := num % den
  if 2 * r < den then q
  else if 2 * r = den then (if q % 2 = 0 then q else q + 1)
  else q + 1

/-- The bits of the double nearest to `num / den`, ties to even, overflow to infinity. -/
def quotientBits (num den : Nat) : UInt64 :=
  if num = 0 then 0
  else
    let scale (q : Int) : Nat × Nat :=
      if 0 ≤ q then (num, den * Nat.pow 2 q.toNat) else (num * Nat.pow 2 (-q).toNat, den)
    let q₀ : Int := max (Int.ofNat num.log2 - Int.ofNat den.log2 - 52) minExp
    let s₀ := scale q₀
    let q : Int := if s₀.1 / s₀.2 < hiddenBit then max (q₀ - 1) minExp else q₀
    let s := scale q
    let bits := (q - minExp).toNat * hiddenBit + roundQuotient s.1 s.2
    if infinityBits.toNat ≤ bits then infinityBits else bits.toUInt64

def nearest (negative : Bool) (digits : Nat) (exp : Int) : Double :=
  let len : Int := Int.ofNat (Nat.toDigits 10 digits).length
  let bits : UInt64 :=
    if digits = 0 ∨ len + exp < -330 then 0
    else if 310 < len + exp then infinityBits
    else if 0 ≤ exp then quotientBits (digits * Nat.pow 10 exp.toNat) 1
    else quotientBits digits (Nat.pow 10 (-exp).toNat)
  ⟨withSign negative bits⟩

/-- The remainder `x - n * y` with `n` the quotient cut toward zero; it has the sign of `x`.
The magnitudes are brought to one exponent, where the remainder of naturals is exact. -/
def remainder (x y : Double) : Double :=
  if x.isNaN then x
  else if y.isNaN then y
  else if x.isInfinite || y.isZero then Double.nan true
  else if y.isInfinite then x
  else
    let a := Binary.ofBits x.bits
    let b := Binary.ofBits y.bits
    let e := min a.exp b.exp
    let r := (a.mant * Nat.pow 2 (a.exp - e).toNat) % (b.mant * Nat.pow 2 (b.exp - e).toNat)
    let q := (Binary.mk r e).toQuotient
    ⟨withSign x.isNegative (quotientBits q.1 q.2)⟩

end Decimal
end ScriptEngine
