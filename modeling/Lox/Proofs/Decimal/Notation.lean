import Lox.Decimal.Notation
import Lox.Proofs.Decimal.Nearest
import Lox.Proofs.Token.Classes

/-!
# Positional notation is a number's

The positional form of a decimal is the text of one token, a number with the value of the decimal:
zeros behind the digits are digits, and a point stands between two digits.
-/

namespace Lox.Decimal

open Lexer (IsDigits Matches digitsValue numberValue)

theorem digitsValue_eq (digits : List Char) : digitsValue digits = Nat.ofDigitChars 10 digits 0 := by
  simp only [digitsValue, Nat.ofDigitChars_eq_foldl, Nat.mul_comm]

/-- The digits of a number have its value. -/
theorem digitsValue_toDigits (n : Nat) : digitsValue (Nat.toDigits 10 n) = n :=
  (digitsValue_eq _).trans Nat.ofDigitChars_ten_toDigits

/-- Zeros in front of digits add nothing. -/
theorem digitsValue_zeros (n : Nat) (digits : List Char) :
    digitsValue (List.replicate n '0' ++ digits) = digitsValue digits := by
  rw [digitsValue_eq, Nat.ofDigitChars_append, Nat.ofDigitChars_replicate_zero, Nat.mul_zero,
    ← digitsValue_eq]

/-- Each zero behind digits is a power of ten. -/
theorem digitsValue_append_zeros (digits : List Char) (n : Nat) :
    digitsValue (digits ++ List.replicate n '0') = digitsValue digits * tenPow n := by
  rw [digitsValue_eq, Nat.ofDigitChars_append, Nat.ofDigitChars_replicate_zero, Nat.mul_comm,
    ← digitsValue_eq]
  rfl

/-! ## The digits -/

theorem toList_text (d : Decimal) : d.text.toList = Nat.toDigits 10 d.digits := by
  rw [text, Nat.toString_eq_ofList_toDigits, String.toList_ofList]

theorem isDigits_toDigits (n : Nat) : IsDigits (Nat.toDigits 10 n) where
  some := Nat.toDigits_ne_nil
  digits _ mem := Nat.isDigit_of_mem_toDigits (by decide) (by decide) mem

theorem isDigit_zeros (n : Nat) : ∀ c ∈ List.replicate n '0', c.isDigit = true := by
  intro c mem
  rw [List.eq_of_mem_replicate mem]
  rfl

theorem isDigit_append {front back : List Char} (h : ∀ c ∈ front, c.isDigit = true)
    (h' : ∀ c ∈ back, c.isDigit = true) : ∀ c ∈ front ++ back, c.isDigit = true := by
  intro c mem
  rcases List.mem_append.1 mem with mem | mem
  · exact h c mem
  · exact h' c mem

/-! ## The value -/

/-- The value of a whole number does not depend on how many of its zeros are written. -/
theorem toFloat_zeros (n places : Nat) : toFloat ⟨n * tenPow places, 0⟩ = toFloat ⟨n, places⟩ := by
  have noPlaces : (-(places : Int)).toNat = 0 := by omega
  have one : n * tenPow places * tenPow 0 = n * tenPow places := Nat.mul_one _
  simp only [toFloat, Int.toNat_natCast, noPlaces, Int.toNat_zero, Int.neg_zero, one]

/-- Digits with zeros behind them. -/
theorem zeros_match (n places : Nat) :
    Matches (.token (.number (toFloat ⟨n, places⟩)))
      (Nat.toDigits 10 n ++ List.replicate places '0') := by
  have digits := isDigits_toDigits n
  have whole : IsDigits (Nat.toDigits 10 n ++ List.replicate places '0') :=
    ⟨List.append_ne_nil_of_left_ne_nil digits.some _,
      isDigit_append digits.digits (isDigit_zeros places)⟩
  have value : numberValue (Nat.toDigits 10 n ++ List.replicate places '0') [] =
      toFloat ⟨n, places⟩ := by
    rw [numberValue, List.append_nil, digitsValue_append_zeros, digitsValue_toDigits]
    exact toFloat_zeros n places
  rw [← value]
  exact .integer whole

/-- Digits with a point among them. -/
theorem point_matches {d : Decimal} {whole fraction : List Char} (before : IsDigits whole)
    (behind : IsDigits fraction) (value : digitsValue (whole ++ fraction) = d.digits)
    (places : -(fraction.length : Int) = d.exponent) :
    Matches (.token (.number d.toFloat)) (whole ++ '.' :: fraction) := by
  have number : numberValue whole fraction = d.toFloat := by rw [numberValue, value, places]
  rw [← number]
  exact .decimal before behind

section

variable {n p : Nat}

/-- A point stands among the digits of a number that has more of them than places. -/
theorem inside_matches (inside : p + 1 < (Nat.toDigits 10 n).length) :
    Matches (.token (.number (toFloat ⟨n, .negSucc p⟩)))
      ((Nat.toDigits 10 n).take ((Nat.toDigits 10 n).length - (p + 1)) ++
        '.' :: (Nat.toDigits 10 n).drop ((Nat.toDigits 10 n).length - (p + 1))) := by
  have digits := (isDigits_toDigits n).digits
  have before : IsDigits ((Nat.toDigits 10 n).take ((Nat.toDigits 10 n).length - (p + 1))) := by
    refine ⟨List.ne_nil_of_length_pos ?_, fun c mem => digits c (List.mem_of_mem_take mem)⟩
    rw [List.length_take]
    omega
  have behind : IsDigits ((Nat.toDigits 10 n).drop ((Nat.toDigits 10 n).length - (p + 1))) := by
    refine ⟨List.ne_nil_of_length_pos ?_, fun c mem => digits c (List.mem_of_mem_drop mem)⟩
    rw [List.length_drop]
    omega
  apply point_matches before behind
  · rw [List.take_append_drop, digitsValue_toDigits]
  · rw [List.length_drop]
    dsimp only
    omega

/-- Zeros stand between the point and the digits of a number that has no more of them than places. -/
theorem outside_matches (outside : (Nat.toDigits 10 n).length ≤ p + 1) :
    Matches (.token (.number (toFloat ⟨n, .negSucc p⟩)))
      (['0'] ++ '.' :: (List.replicate (p + 1 - (Nat.toDigits 10 n).length) '0' ++
        Nat.toDigits 10 n)) := by
  have digits := isDigits_toDigits n
  generalize missing : p + 1 - (Nat.toDigits 10 n).length = zeroes
  have behind : IsDigits (List.replicate zeroes '0' ++ Nat.toDigits 10 n) :=
    ⟨List.append_ne_nil_of_right_ne_nil _ digits.some,
      isDigit_append (isDigit_zeros zeroes) digits.digits⟩
  apply point_matches ⟨by simp, by simp⟩ behind
  · rw [← List.append_assoc]
    exact (digitsValue_zeros (zeroes + 1) _).trans (digitsValue_toDigits n)
  · rw [List.length_append, List.length_replicate]
    dsimp only
    omega

end

/-- **The positional form of a decimal is a number with its value.** -/
theorem positional_matches (d : Decimal) :
    Matches (.token (.number d.toFloat)) d.positional.toList := by
  obtain ⟨n, exponent⟩ := d
  unfold positional
  cases exponent with
  | ofNat places =>
    dsimp only
    rw [String.toList_append, toList_text, zeros, String.toList_ofList]
    exact zeros_match n places
  | negSucc p =>
    dsimp only
    rw [toList_text]
    dsimp only
    split
    · next inside => simpa using inside_matches inside
    · next outside => simpa [zeros, toList_text] using outside_matches (Nat.le_of_not_lt outside)

end Lox.Decimal
