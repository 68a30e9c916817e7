import Lox.Decimal.Notation

/-!
# Written forms of numbers

A number is a double. `text` is what a program prints; `literal` stands in the listing of tokens,
`tree` in the prefix form of a syntax tree and `document` in its JSON form. All of them write the
shortest digits that read back, except `tree`, which has every digit of a whole number.
-/

namespace Lox.Number

open Decimal (Tie)

/-- The minus sign of a negative number, negative zero included. -/
def sign (x : Float) : String := if Decimal.isNegative x then "-" else ""

/-- Positional notation at every size; a whole number has no point. -/
def text (x : Float) : String :=
  if x.isNaN then "NaN"
  else if x.isInf then sign x ++ "inf"
  else sign x ++ (Decimal.shortest Tie.up x).positional

/-- As printed, and a whole number of magnitude below `10 ^ 15` ends in `.0`. -/
def literal (x : Float) : String :=
  if Decimal.isWhole x && Decimal.units x < Decimal.tenPow 15 * Decimal.unitsPerOne then text x ++ ".0"
  else text x

/-- A whole number has all its digits and ends in `.0`; others stand as printed. -/
def tree (x : Float) : String :=
  if Decimal.isWhole x then
    sign x ++ toString (Decimal.units x / Decimal.unitsPerOne) ++ ".0"
  else text x

/-- Positional, with a fraction, from `10 ^ -5` to below `10 ^ 16`; scientific outside; `null` where
there are no digits. -/
def document (x : Float) : String :=
  if x.isFinite then
    let d := Decimal.shortest Tie.even x
    if -5 ≤ d.magnitude ∧ d.magnitude ≤ 15 then
      sign x ++ d.positional ++ (if 0 ≤ d.exponent then ".0" else "")
    else sign x ++ d.scientific
  else "null"

end Lox.Number
