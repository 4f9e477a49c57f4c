import ScriptEngine.Decimal.Binary

/-!
# The shortest decimal that reads back

For a positive magnitude the interval of reals that round to it is known exactly.  The number of
digits grows from one; on each decimal grid only the two neighbours of the value can be nearest, so
the first grid with a neighbour inside the interval gives the shortest text.  Of two hits the nearer
one wins, and a tie goes up.
-/

namespace ScriptEngine
namespace Decimal

/-- A positive decimal `0.d₁d₂…dₙ * 10 ^ point`, its digits as one number. -/
structure Digits where
  value : Nat
  point : Int
  deriving Repr, DecidableEq

/-- The least `k` with `num / den < 10 ^ k`. -/
def decimalPoint (num den : Nat) : Int :=
  if den ≤ num then Int.ofNat (Nat.toDigits 10 (num / den)).length
  else
    let len := (Nat.toDigits 10 (den / num)).length
    if den ≤ num * Nat.pow 10 (len - 1) then 2 - Int.ofNat len else 1 - Int.ofNat len

/-- The interval of reals that round to a magnitude, all over one denominator. -/
structure RoundingInterval where
  low : Nat
  mid : Nat
  high : Nat
  den : Nat
  closed : Bool
  deriving Repr

/-- The rounding interval of the magnitude with the given bits.  Below a power of two the gap is
half as wide.  The ends belong to it when the mantissa is even. -/
def RoundingInterval.ofBits (bits : UInt64) : RoundingInterval :=
  let b := Binary.ofBits bits
  let below := if b.mant = hiddenBit then 1 else 2
  let s : Nat × Nat :=
    if 2 ≤ b.exp then (Nat.pow 2 (b.exp - 2).toNat, 1) else (1, Nat.pow 2 (2 - b.exp).toNat)
  ⟨(4 * b.mant - below) * s.1, 4 * b.mant * s.1, (4 * b.mant + 2) * s.1, s.2, b.mant % 2 = 0⟩

def RoundingInterval.contains (i : RoundingInterval) (num den : Nat) : Bool :=
  if i.closed then
    decide (i.low * den ≤ num * i.den) && decide (num * i.den ≤ i.high * den)
  else
    decide (i.low * den < num * i.den) && decide (num * i.den < i.high * den)

/-- The neighbour of the value on the grid of `n` digits that lies in the interval, if one does. -/
def RoundingInterval.neighbour? (i : RoundingInterval) (point : Int) (n : Nat) : Option Nat :=
  let g := point - Int.ofNat n
  let unit : Nat × Nat := if 0 ≤ g then (Nat.pow 10 g.toNat, 1) else (1, Nat.pow 10 (-g).toNat)
  let down := (i.mid * unit.2) / (i.den * unit.1)
  let rest := (i.mid * unit.2) % (i.den * unit.1)
  let downHit := i.contains (down * unit.1) unit.2
  let upHit := i.contains ((down + 1) * unit.1) unit.2
  if downHit && (!upHit || decide (2 * rest < i.den * unit.1)) then some down
  else if upHit then some (down + 1)
  else none

/-- Drops the zeros at the end of a positive number. -/
def stripZeros : Nat → Nat → Nat
  | 0, n => n
  | fuel + 1, n => if n % 10 = 0 ∧ n ≠ 0 then stripZeros fuel (n / 10) else n

/-- The digits of a positive finite double: the first grid from one digit up that has a hit.
Seventeen digits always suffice. -/
def shortest (bits : UInt64) : Digits :=
  let i := RoundingInterval.ofBits bits
  let point := decimalPoint i.mid i.den
  let rec search : Nat → Nat → Digits
    | 0, n => ⟨(i.mid * Nat.pow 10 n) / i.den, point⟩
    | fuel + 1, n =>
      match i.neighbour? point n with
      | some d =>
        let carried := if d = Nat.pow 10 n then point + 1 else point
        ⟨stripZeros 20 d, carried⟩
      | none => search fuel (n + 1)
  search 18 1

end Decimal
end ScriptEngine
