import Lox.Decimal.Shortest

/-!
# Written forms of decimals

Positional notation writes a decimal with a point and as many zeros as its exponent asks for;
scientific notation writes one digit before the point and a signed power of ten.
-/

namespace Lox.Decimal

/-- The digits as text. -/
def text (d : Decimal) : String := toString d.digits

/-- The power of ten of the first digit. -/
def magnitude (d : Decimal) : Int := d.text.length - 1 + d.exponent

/-- A text of zeros. -/
def zeros (n : Nat) : String := String.ofList (List.replicate n '0')

/-- Digits and point, and no exponent. The point stands only before a fraction. -/
def positional (d : Decimal) : String :=
  match d.exponent with
  | .ofNat n => d.text ++ zeros n
  | .negSucc p =>
    let places := p + 1
    let digits := d.text.toList
    if places < digits.length then
      String.ofList (digits.take (digits.length - places)) ++ "." ++
        String.ofList (digits.drop (digits.length - places))
    else
      "0." ++ zeros (places - digits.length) ++ d.text

/-- One digit, the others after a point, and the power of ten with its sign. -/
def scientific (d : Decimal) : String :=
  let mantissa := match d.text.toList with
    | [] => "0"
    | [c] => c.toString
    | c :: cs => c.toString ++ "." ++ String.ofList cs
  mantissa ++ "e" ++ (if d.magnitude < 0 then "-" else "+") ++ toString d.magnitude.natAbs

end Lox.Decimal
