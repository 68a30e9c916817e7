import Lox.Proofs.Decimal.Integers

/-!
# Numbers in the text of a tree

What stands for a finite number in the text of a tree is the text of one number token with its
value, unless the number is negative: a whole number with all its digits and a zero behind the
point, any other with the shortest digits that read back. So the text determines the number.
-/

namespace Lox

open Lexer (Matches digitsValue)

namespace Decimal

variable {x : Float}

/-- A decimal that reads as a number which is not negative is that number. -/
theorem toFloat_of_readsAs {d : Decimal} (positive : isNegative x = false)
    (reads : d.readsAs x = true) : d.toFloat = x :=
  eq_of_magnitude ((isNegative_toFloat d).trans positive.symm) (beq_iff_eq.1 reads)

/-- A whole number as one of tenths. -/
def tenths (x : Float) : Decimal := ⟨units x / unitsPerOne * 10, -1⟩

theorem tenths_readsAs (whole : isWhole x = true) : (tenths x).readsAs x = true := by
  rw [isWhole, Bool.and_eq_true, beq_iff_eq] at whole
  obtain ⟨finite, none⟩ := whole
  have exact := Nat.div_mul_cancel (Nat.dvd_of_mod_eq_zero none)
  have ten : tenPow (-(tenths x).exponent).toNat = 10 := rfl
  have one : tenPow (tenths x).exponent.toNat = 1 := rfl
  apply readsAs_of_exact finite
  rw [ten, one, Nat.mul_one, tenths, Nat.mul_right_comm, exact]

/-- The digits of a whole number, a point and a zero. -/
theorem tenths_match (x : Float) :
    Matches (.token (.number (tenths x).toFloat))
      (Nat.toDigits 10 (units x / unitsPerOne) ++ '.' :: ['0']) := by
  have zero : Lexer.IsDigits ['0'] := ⟨List.cons_ne_nil _ _, isDigit_zeros 1⟩
  have value : digitsValue (Nat.toDigits 10 (units x / unitsPerOne) ++ ['0']) =
      (tenths x).digits := by
    have appended := digitsValue_append_zeros (Nat.toDigits 10 (units x / unitsPerOne)) 1
    rw [digitsValue_toDigits] at appended
    exact appended
  exact point_matches (isDigits_toDigits _) zero value rfl

/-- Positive infinity. -/
def infinity : Float := Float.ofBits 0x7FF0000000000000

/-- A decimal that is too large for a double reads as infinity. -/
theorem toFloat_of_large {d : Decimal} (large : d.toFloat.isFinite = false) :
    d.toFloat = infinity := by
  have most : magnitudeBits d.toFloat ≤ infinityBits :=
    (magnitudeBits_toFloat d).trans_le (Nat.min_le_right _ _)
  have least : ¬ magnitudeBits d.toFloat < infinityBits := by
    rw [← isFinite_iff, large]
    exact Bool.false_ne_true
  have bits : magnitudeBits d.toFloat = magnitudeBits infinity :=
    (Nat.le_antisymm most (Nat.le_of_not_lt least)).trans (by decide)
  exact eq_of_magnitude ((isNegative_toFloat d).trans (by decide)) bits

end Decimal

namespace Number

open Decimal

variable {x : Float}

/-- A number that a text spells is not negative, and finite unless it is too large. -/
theorem finite_of_matches {text : List Char} (spelled : Matches (.token (.number x)) text)
    (small : x.isInf = false) : x.isFinite = true ∧ isNegative x = false := by
  obtain ⟨d, rfl⟩ : ∃ d : Decimal, d.toFloat = x := by cases spelled <;> exact ⟨_, rfl⟩
  refine ⟨?_, isNegative_toFloat d⟩
  cases finite : d.toFloat.isFinite with
  | true => rfl
  | false =>
    rw [toFloat_of_large finite] at small
    exact absurd small (by decide)

/-- **The text of a number in a tree is that of one token with its value.** -/
theorem tree_matches (finite : x.isFinite = true) (positive : isNegative x = false) :
    Matches (.token (.number x)) (tree x).toList := by
  have unsigned : sign x = "" := by
    rw [sign, positive]
    rfl
  unfold tree
  split
  · next whole =>
    have matched := tenths_match x
    rw [toFloat_of_readsAs positive (tenths_readsAs whole)] at matched
    rw [unsigned, String.empty_append, String.toList_append, Nat.toString_eq_ofList_toDigits,
      String.toList_ofList]
    exact matched
  · have matched := positional_matches (shortest .up x)
    rw [toFloat_of_readsAs positive (shortest_readsAs .up finite)] at matched
    rw [text_finite finite, unsigned, String.empty_append]
    exact matched

end Number

end Lox
