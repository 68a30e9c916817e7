import Lox.Proofs.Decimal.Integers
import Lox.Proofs.Parser.ForStatements
import Lox.Proofs.Session.Printing
import Lox.Proofs.Token.Spacing

/-!
# Printed numbers read back

The text of a finite number is that of one number token, behind a minus sign where the number is
negative. So it is an expression, a literal or its negation, and evaluates to the number it was
printed from: the literal has its magnitude (`Decimal.shortest_readsAs`), and to negate gives it its
sign, negative zero included (`Decimal.neg_eq_of_magnitude`).
-/

namespace Lox

open Lexer (Scans munch munch_alone)
open Grammar (Operation)

namespace Number

variable {x : Float}

/-- The magnitude of a finite number as it is written and read again. -/
def reread (x : Float) : Float := (Decimal.shortest .up x).toFloat

/-- The tree of the text of a number. -/
def treeOf (x : Float) : Expr Unit :=
  let magnitude : Expr Unit := .literal (.number (reread x))
  if Decimal.isNegative x then .unary .negate 1 magnitude else magnitude

/-- What is read is the number, but for its sign. -/
theorem reread_eq (finite : x.isFinite = true) :
    (if Decimal.isNegative x then -reread x else reread x) = x := by
  have positive : Decimal.isNegative (reread x) = false := Decimal.isNegative_toFloat _
  have magnitude : Decimal.magnitudeBits x = Decimal.magnitudeBits (reread x) :=
    (beq_iff_eq.1 (Decimal.shortest_readsAs .up finite)).symm
  split
  · next negative => exact Decimal.neg_eq_of_magnitude negative positive magnitude
  · next negative =>
    rw [Bool.not_eq_true] at negative
    exact (Decimal.eq_of_magnitude (negative.trans positive.symm) magnitude).symm

/-- The text of a finite number is an expression. -/
theorem isExpression_text (finite : x.isFinite = true) : IsExpression (text x) (treeOf x) := by
  have spelled := Decimal.positional_matches (Decimal.shortest .up x)
  obtain ⟨c, cs, digits⟩ := List.exists_cons_of_ne_nil spelled.ne_nil
  rw [digits] at spelled
  have number : ∃ t line, t.kind = .number (reread x) ∧ Scans 1 (c :: cs) [t] line [] :=
    ⟨_, _, rfl, .take (munch_alone spelled) .done⟩
  obtain ⟨t, line, isNumber, scans⟩ := number
  have literal : Operation .unary [t] (.literal (.number (reread x))) :=
    .call (.of (.number isNumber) .done)
  rw [text_finite finite, sign, treeOf]
  by_cases negative : Decimal.isNegative x = true
  · have minus : munch '-' (c :: cs) = ⟨.token (.symbol .minus), ['-'], c :: cs⟩ := rfl
    have negated : Operation .unary [⟨.symbol .minus, String.ofList ['-'], 1⟩, t]
        (.unary .negate 1 (.literal (.number (reread x)))) := .negate rfl literal
    rw [if_pos negative, if_pos negative]
    refine ⟨_, line, ?_, .operation (negated.weaken .or), rfl⟩
    rw [String.toList_append, digits]
    exact .take minus scans
  · rw [if_neg negative, if_neg negative, String.empty_append]
    refine ⟨[t], line, ?_, .operation (literal.weaken .or), rfl⟩
    rw [digits]
    exact scans

/-- **Printed numbers read back.** A finite number prints as its sign and its digits: those of an
integer if it is a whole number of magnitude below `10 ^ 15`, and else the shortest that read back, in
positional notation. Evaluated in any session, this text gives the same double, with the same sign. -/
theorem evaluates_printed_number (finite : x.isFinite = true) (s : Session) (fuel : Nat) :
    let printed := (Value.number x).text
    printed = sign x ++
      (if Decimal.isWhole x ∧ Decimal.units x < Decimal.tenPow 15 * Decimal.unitsPerOne then
        toString (Decimal.units x / Decimal.unitsPerOne)
      else (Decimal.shortest .up x).positional) ∧
    (s.evaluate (fuel + 2) printed).1 = .ok (.number x) := by
  intro printed
  have same : printed = text x := rfl
  constructor
  · split
    · next whole => rw [same, text_whole whole.1 whole.2]
    · exact text_finite finite
  · rw [same, (Session.evaluate_of_isExpression (isExpression_text finite) s _).1]
    have answer : Run.answer ((evaluator (fuel + 2)).eval ((treeOf x).placed []) s.machine) =
        .ok (.number (if Decimal.isNegative x then -reread x else reread x)) := by
      unfold treeOf
      split <;> rfl
    rw [answer, reread_eq finite]

theorem evaluates_printed_number_negativeZero :
    let x := Float.ofBits 0x8000000000000000
    x.isFinite = true ∧ Decimal.isNegative x = true ∧ (Value.number x).text = "-0" ∧
      ((Session.start .reliable (.ticking 0)).evaluate 2 (Value.number x).text).1 =
        .ok (.number x) := by
  have finite : (Float.ofBits 0x8000000000000000).isFinite = true := by decide
  obtain ⟨-, evaluates⟩ := evaluates_printed_number finite (.start .reliable (.ticking 0)) 0
  exact ⟨finite, by decide, by decide, evaluates⟩

end Number

end Lox
