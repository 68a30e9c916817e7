import Lox.Decimal.Double

/-!
# Shortest decimals

`Decimal.shortest tie x` is the decimal with the fewest digits that reads back as the finite double
`x`; of two such decimals it is the nearer to `x`, and `tie` decides between equally near ones. A
decimal with `n` digits that reads back exists only if one of the two decimals with `n` digits on
either side of `x` reads back, so these are the candidates, for `n = 1, 2, … 17`.
-/

namespace Lox

/-- A nonnegative decimal number, `digits * 10 ^ exponent`. -/
structure Decimal where
  digits : Nat
  exponent : Int
  deriving DecidableEq, Repr

namespace Decimal

/-- Which of two equally near decimals is taken. -/
inductive Tie where
  /-- The larger one. -/
  | up
  /-- The one whose last digit is even. -/
  | even
  deriving DecidableEq, Repr

/-- The double nearest to the decimal. -/
def toFloat (d : Decimal) : Float :=
  nearest (d.digits * tenPow d.exponent.toNat) (tenPow (-d.exponent).toNat)

/-- The decimal reads as a double of the same magnitude as `x`. -/
def readsAs (d : Decimal) (x : Float) : Bool :=
  magnitudeBits d.toFloat == magnitudeBits x

/-- Scaled by this power of ten, the smallest positive double has digits before the point. -/
def guardPlaces : Nat := 343

/-- The number of decimal digits. -/
def length (n : Nat) : Nat := (Nat.toDigits 10 n).length

/-- The decimal without the zero that a carry into a new place leaves at its end. -/
def dropZero (d : Decimal) : Decimal :=
  if d.digits % 10 = 0 then ⟨d.digits / 10, d.exponent + 1⟩ else d

/-- The next decimal with the same exponent. -/
def next (d : Decimal) : Decimal := dropZero ⟨d.digits + 1, d.exponent⟩

/-- The magnitude of a finite double with all its digits. -/
def exact (x : Float) : Decimal := ⟨units x * Nat.pow 5 1074, -1074⟩

/-- The larger of `d` and `d.next` where the double `x` between them lies nearer to it, the smaller
where it lies nearer to that, and the choice of `tie` in the middle. -/
def nearer (tie : Tie) (x : Float) (d : Decimal) : Decimal :=
  let twice := 2 * units x * tenPow (-d.exponent).toNat
  let middle := (2 * d.digits + 1) * unitsPerOne * tenPow d.exponent.toNat
  if twice < middle then d
  else if middle < twice then d.next
  else match tie with
    | .up => d.next
    | .even => if d.digits % 2 = 0 then d else d.next

/-- The decimal among `d` and `d.next` that reads as `x`, the nearer one if both do. -/
def pick (tie : Tie) (x : Float) (d : Decimal) : Option Decimal :=
  match d.readsAs x, d.next.readsAs x with
  | true, true => some (nearer tie x d)
  | true, false => some d
  | false, true => some d.next
  | false, false => none

/-- The first `n` digits of `scaled / 10 ^ guardPlaces`, where `scaled` has the given number of
digits. -/
def leading (scaled places n : Nat) : Decimal :=
  ⟨scaled * tenPow (n - places) / tenPow (places - n), (places : Int) - n - guardPlaces⟩

/-- The shortest decimal that reads back as the finite double `x`; 17 digits always do. -/
def shortest (tie : Tie) (x : Float) : Decimal :=
  if units x = 0 then ⟨0, 0⟩
  else
    let scaled := units x * tenPow guardPlaces / unitsPerOne
    let places := length scaled
    let hit := (List.range 17).findSome? fun i => pick tie x (leading scaled places (i + 1))
    hit.getD (exact x)

end Decimal

end Lox
