/-!
# Doubles as exact numbers

The magnitude of a finite double is a whole number of units of `2 ^ -1074`, the smallest positive
double. `units` is that number, and `nearest num den` is the double whose magnitude is nearest to
`num / den`, a tie going to the even neighbour. Both work on the bit pattern in natural numbers: a
pattern without its sign is `k * 2 ^ 52 + m`, and its magnitude is `m * 2 ^ k` units.
-/

namespace Lox.Decimal

/-- The power of two with this exponent. -/
def twoPow (n : Nat) : Nat := Nat.pow 2 n

/-- The power of ten with this exponent. -/
def tenPow (n : Nat) : Nat := Nat.pow 10 n

/-- The units in 1. -/
def unitsPerOne : Nat := twoPow 1074

/-- The bit pattern of positive infinity, just above those of the finite doubles. -/
def infinityBits : Nat := 2047 * twoPow 52

/-- The bit pattern without the sign bit. -/
def magnitudeBits (x : Float) : Nat := x.toBits.toNat % twoPow 63

/-- The sign bit is set, for negative zero too. -/
def isNegative (x : Float) : Bool := decide (twoPow 63 ≤ x.toBits.toNat)

/-- The magnitude, in units, that a finite bit pattern stands for. -/
def unitsOfBits (bits : Nat) : Nat :=
  let scale := bits / twoPow 52
  let fraction := bits % twoPow 52
  if scale = 0 then fraction else (twoPow 52 + fraction) * twoPow (scale - 1)

/-- The magnitude of a finite double, in units. -/
def units (x : Float) : Nat := unitsOfBits (magnitudeBits x)

/-- The double is a whole number. -/
def isWhole (x : Float) : Bool := x.isFinite && units x % unitsPerOne == 0

/-- The quotient rounded to the nearest whole number, a tie going to the even one. -/
def roundHalfEven (num den : Nat) : Nat :=
  let quotient := num / den
  let twice := 2 * (num % den)
  if twice < den ∨ (twice = den ∧ quotient % 2 = 0) then quotient else quotient + 1

/-- The bit pattern of the double nearest to `num / den`. The scale `k` leaves at most 53 bits of the
quotient before the point; a carry out of them moves into the next scale by itself. -/
def nearestBits (num den : Nat) : Nat :=
  let k := (num * unitsPerOne / den).log2 - 52
  min (k * twoPow 52 + roundHalfEven (num * unitsPerOne) (den * twoPow k)) infinityBits

/-- The double nearest to `num / den`; infinity above all finite ones. -/
def nearest (num den : Nat) : Float := Float.ofBits (UInt64.ofNat (nearestBits num den))

end Lox.Decimal
