import Lox.Number
import Lox.Proofs.Decimal.Notation

/-!
# Whole numbers print as integers

A double that is a whole number below `10 ^ 15` prints as that number: of the decimals that `shortest`
looks at, those with no more digits than the number are whole numbers below `2 ^ 53` themselves, each
of them is a double of its own, and so only the number itself reads back. The zeros that its shortest
form leaves off come back in positional notation.
-/

namespace Lox.Decimal

/-! ## Whole numbers are doubles -/

theorem twoPow_53 : twoPow 53 = 9007199254740992 := rfl

/-- A number of 53 bits is the pattern of its shifts. -/
theorem unitsOfBits_shifted {m : Nat} (scale : Nat) (low : twoPow 52 ≤ m) (high : m < twoPow 53) :
    unitsOfBits (scale * twoPow 52 + m) = m * twoPow scale := by
  rw [twoPow_52] at low
  rw [twoPow_53] at high
  have exponent : (scale * twoPow 52 + m) / twoPow 52 = scale + 1 := by
    rw [twoPow_52]
    omega
  have fraction : twoPow 52 + (scale * twoPow 52 + m) % twoPow 52 = m := by
    rw [twoPow_52]
    omega
  simp only [unitsOfBits]
  rw [exponent, if_neg (Nat.succ_ne_zero scale), fraction, Nat.add_sub_cancel]

/-- Every whole number below `2 ^ 53` is the magnitude of a double. -/
theorem exists_bits_of_whole {n : Nat} (below : n < twoPow 53) :
    ∃ bits, bits < infinityBits ∧ unitsOfBits bits = n * unitsPerOne := by
  rcases Nat.eq_zero_or_pos n with rfl | positive
  · exact ⟨0, by decide, (Nat.zero_mul _).symm⟩
  have short : n.log2 < 53 := (Nat.log2_lt positive.ne').2 below
  -- shifted so that it has 53 bits
  obtain ⟨shift, width⟩ : ∃ shift, n.log2 + shift = 52 := ⟨52 - n.log2, by omega⟩
  have low : twoPow 52 ≤ n * twoPow shift := by
    rw [← width, twoPow_add]
    exact Nat.mul_le_mul_right _ (Nat.log2_self_le positive.ne')
  have high : n * twoPow shift < twoPow 53 := by
    have one : twoPow 53 = twoPow (n.log2 + 1) * twoPow shift := by
      rw [← twoPow_add]
      congr 1
      omega
    rw [one]
    exact Nat.mul_lt_mul_of_pos_right Nat.lt_log2_self (twoPow_pos shift)
  refine ⟨(1022 + n.log2) * twoPow 52 + n * twoPow shift, ?_, ?_⟩
  · rw [twoPow_53] at high
    rw [twoPow_52, infinityBits_eq]
    omega
  · rw [unitsOfBits_shifted _ low high, Nat.mul_assoc, ← twoPow_add, unitsPerOne]
    congr 2
    omega

variable {tie : Tie} {x : Float} {n : Nat}

/-- Of the whole numbers below `2 ^ 53`, a whole number reads as itself only. -/
theorem readsAs_whole_iff {d : Decimal} {places : Nat} (finite : x.isFinite = true)
    (whole : units x = n * unitsPerOne) (exponent : d.exponent = places)
    (below : d.digits * tenPow places < twoPow 53) :
    d.readsAs x = true ↔ d.digits * tenPow places = n := by
  have noPlaces : (-d.exponent).toNat = 0 := by omega
  have one : tenPow 0 = 1 := rfl
  constructor
  · intro reads
    obtain ⟨bits, small, magnitude⟩ := exists_bits_of_whole below
    have read : magnitudeBits d.toFloat = bits := by
      rw [magnitudeBits_toFloat, exponent, Int.toNat_natCast, ← exponent, noPlaces]
      apply nearestBits_of_exact (tenPow_pos 0) small
      rw [magnitude, one, Nat.mul_one]
    have same : bits = magnitudeBits x := read.symm.trans (beq_iff_eq.1 reads)
    rw [same, ← units, whole] at magnitude
    exact (Nat.eq_of_mul_eq_mul_right unitsPerOne_pos magnitude).symm
  · intro same
    apply readsAs_of_exact finite
    rw [exponent, Int.toNat_natCast, ← exponent, noPlaces, same, whole, one, Nat.mul_one]

/-! ## The candidates -/

theorem tenPow_add (m n : Nat) : tenPow (m + n) = tenPow m * tenPow n := Nat.pow_add 10 m n

theorem tenPow_succ (n : Nat) : tenPow (n + 1) = tenPow n * 10 := Nat.pow_succ 10 n

/-- The digits of a number with zeros behind them. -/
theorem toDigits_mul_tenPow {n : Nat} (positive : 0 < n) (places : Nat) :
    Nat.toDigits 10 (n * tenPow places) = Nat.toDigits 10 n ++ List.replicate places '0' := by
  induction places with
  | zero =>
    rw [List.replicate_zero, List.append_nil]
    exact congrArg _ (Nat.mul_one n)
  | succ places ih =>
    have more : n * tenPow (places + 1) = 10 * (n * tenPow places) + 0 := by
      rw [tenPow_succ]
      ring
    rw [more, ← Nat.toDigits_append_toDigits (by decide) (Nat.mul_pos positive (tenPow_pos _))
      (by decide), ih, List.replicate_succ', List.append_assoc]
    rfl

/-- A number has as many digits as the least power of ten above it. -/
theorem tenPow_le_iff {n places : Nat} (positive : 0 < n) : tenPow places ≤ n ↔ places < length n := by
  rcases Nat.eq_zero_or_pos places with rfl | some
  · exact ⟨fun _ => List.length_pos_of_ne_nil Nat.toDigits_ne_nil, fun _ => positive⟩
  · exact Nat.not_lt.symm.trans
      ((Nat.length_toDigits_le_iff (by decide) some).symm.not.trans Nat.not_le)

/-- The value of a decimal does not depend on a zero at its end. -/
theorem dropZero_value {d : Decimal} {places : Nat} (exponent : d.exponent = places) :
    ∃ places' : Nat, d.dropZero.exponent = places' ∧
      d.dropZero.digits * tenPow places' = d.digits * tenPow places := by
  unfold dropZero
  split
  · next zero =>
    refine ⟨places + 1, by rw [exponent]; rfl, ?_⟩
    rw [tenPow_succ, Nat.mul_comm (tenPow places), ← Nat.mul_assoc, Nat.div_mul_cancel]
    exact Nat.dvd_of_mod_eq_zero zero
  · exact ⟨places, exponent, rfl⟩

/-- Of the first digits of a whole number, those that are all of it but zeros are picked. -/
theorem pick_whole (finite : x.isFinite = true) (whole : units x = n * unitsPerOne)
    (below : n < tenPow 15) {places : Nat} (inside : tenPow places ≤ n) :
    pick tie x ⟨n / tenPow places, places⟩ =
      if n / tenPow places * tenPow places = n then some ⟨n / tenPow places, places⟩ else none := by
  have part : n / tenPow places * tenPow places ≤ n := Nat.div_mul_le_self _ _
  have behind : n < (n / tenPow places + 1) * tenPow places := by
    rw [Nat.mul_comm]
    exact Nat.lt_mul_div_succ n (tenPow_pos places)
  have step : (n / tenPow places + 1) * tenPow places = n / tenPow places * tenPow places +
    tenPow places := Nat.succ_mul _ _
  have room : tenPow 15 + tenPow 15 ≤ twoPow 53 := by decide
  generalize n / tenPow places = front at *
  -- the next decimal is above the number
  have next : (next ⟨front, places⟩).readsAs x = false := by
    obtain ⟨places', exponent, value⟩ := dropZero_value (d := ⟨front + 1, places⟩) rfl
    have reads := readsAs_whole_iff finite whole exponent (by rw [value]; dsimp only; omega)
    rw [value] at reads
    rw [Bool.eq_false_iff, Ne, Decimal.next]
    intro same
    exact absurd (reads.1 same) behind.ne'
  have reads := readsAs_whole_iff (d := ⟨front, places⟩) finite whole rfl (by dsimp only; omega)
  rw [pick_eq, next]
  split_ifs with all
  · rw [reads.2 all]
  · rw [Bool.eq_false_iff.2 (mt reads.1 all)]

/-! ## The shortest form -/

/-- What `shortest` tries at one number of digits, less one. -/
def candidate (tie : Tie) (x : Float) (scaled i : Nat) : Option Decimal :=
  pick tie x (leading scaled (length scaled) (i + 1))

theorem shortest_eq {scaled : Nat} (some : units x ≠ 0)
    (scales : units x * tenPow guardPlaces / unitsPerOne = scaled) :
    shortest tie x = ((List.range 17).findSome? (candidate tie x scaled)).getD (exact x) := by
  rw [shortest, if_neg some, ← scales]
  rfl

/-- The first digits of a whole number, as they are cut off its scaled form. -/
theorem leading_whole (positive : 0 < n) {count places : Nat} (counts : count + places = length n) :
    leading (n * tenPow guardPlaces) (length (n * tenPow guardPlaces)) count =
      ⟨n / tenPow places, places⟩ := by
  have size : length (n * tenPow guardPlaces) = length n + guardPlaces := by
    rw [length, toDigits_mul_tenPow positive, List.length_append, List.length_replicate]
    rfl
  have none : count - (length n + guardPlaces) = 0 := by omega
  have rest : length n + guardPlaces - count = places + guardPlaces := by omega
  have one : n * tenPow guardPlaces * tenPow 0 = n * tenPow guardPlaces := Nat.mul_one _
  have exponent : ((length n + guardPlaces : Nat) : Int) - count - guardPlaces = places := by omega
  rw [leading, size, none, rest, one, exponent, tenPow_add,
    Nat.mul_div_mul_right _ _ (tenPow_pos _)]

theorem candidate_whole (finite : x.isFinite = true) (whole : units x = n * unitsPerOne)
    (positive : 0 < n) (below : n < tenPow 15) {i places : Nat}
    (counts : i + 1 + places = length n) :
    candidate tie x (n * tenPow guardPlaces) i =
      if n / tenPow places * tenPow places = n then some ⟨n / tenPow places, places⟩ else none := by
  rw [candidate, leading_whole positive counts]
  exact pick_whole finite whole below ((tenPow_le_iff positive).2 (by omega))

/-- What is found first is found no later than a number that has something. -/
theorem findSome?_range {α : Type} {f : Nat → Option α} {size last : Nat} (inside : last < size)
    (hit : (f last).isSome) :
    ∃ i ≤ last, ∃ a, f i = some a ∧ (List.range size).findSome? f = some a := by
  obtain ⟨more, rfl⟩ := Nat.exists_eq_add_of_lt inside
  have found : ((List.range (last + 1)).findSome? f).isSome :=
    List.findSome?_isSome_iff.2 ⟨last, List.self_mem_range_succ, hit⟩
  obtain ⟨a, first⟩ := Option.isSome_iff_exists.1 found
  obtain ⟨i, mem, value⟩ := List.exists_of_findSome?_eq_some first
  refine ⟨i, Nat.le_of_lt_succ (List.mem_range.1 mem), a, value, ?_⟩
  rw [Nat.add_right_comm, List.range_add, List.findSome?_append, first]
  rfl

/-- The shortest form of a whole number is the number without some of its zeros. -/
theorem shortest_whole (finite : x.isFinite = true) (whole : units x = n * unitsPerOne)
    (positive : 0 < n) (below : n < tenPow 15) :
    ∃ digits places : Nat, shortest tie x = ⟨digits, places⟩ ∧ digits * tenPow places = n := by
  have some : units x ≠ 0 := by
    rw [whole]
    exact (Nat.mul_pos positive unitsPerOne_pos).ne'
  have scaled : units x * tenPow guardPlaces / unitsPerOne = n * tenPow guardPlaces := by
    rw [whole, Nat.mul_right_comm]
    exact Nat.mul_div_cancel _ unitsPerOne_pos
  have long : 0 < length n := (tenPow_le_iff positive).1 positive
  have short : length n ≤ 15 := by
    by_contra longer
    exact absurd ((tenPow_le_iff positive).2 (Nat.lt_of_not_le longer)) below.not_ge
  -- with all its digits the number is found, if not before
  obtain ⟨last, counts⟩ : ∃ last, last + 1 + 0 = length n := ⟨length n - 1, by omega⟩
  have hit : (candidate tie x (n * tenPow guardPlaces) last).isSome := by
    have all : n / tenPow 0 * tenPow 0 = n := Nat.div_mul_cancel (Nat.one_dvd n)
    rw [candidate_whole finite whole positive below counts, if_pos all]
    rfl
  have inside : last < 17 := by omega
  obtain ⟨i, before, e, picked, found⟩ := findSome?_range inside hit
  obtain ⟨places, counts'⟩ : ∃ places, i + 1 + places = length n :=
    ⟨length n - (i + 1), by omega⟩
  rw [candidate_whole finite whole positive below counts'] at picked
  split_ifs at picked with value
  refine ⟨_, _, ?_, value⟩
  rw [shortest_eq some scaled, found, Option.some.inj picked]
  rfl

/-- **A whole number below `10 ^ 15` is printed as an integer.** -/
theorem positional_whole (finite : x.isFinite = true) (whole : units x = n * unitsPerOne)
    (below : n < tenPow 15) : (shortest tie x).positional = toString n := by
  rcases Nat.eq_zero_or_pos n with rfl | positive
  · rw [Nat.zero_mul] at whole
    rw [shortest, if_pos whole]
    rfl
  · obtain ⟨digits, places, form, value⟩ := @shortest_whole tie x n finite whole positive below
    have some : 0 < digits := by
      rw [← value] at positive
      exact Nat.pos_of_mul_pos_right positive
    have written : Decimal.positional ⟨digits, places⟩ = Decimal.text ⟨digits, places⟩ ++ zeros places :=
      rfl
    apply String.toList_inj.1
    rw [form, written, String.toList_append, toList_text, zeros, String.toList_ofList,
      Nat.toString_eq_ofList_toDigits, String.toList_ofList, ← value, toDigits_mul_tenPow some]

end Lox.Decimal

namespace Lox.Number

open Decimal

variable {x : Float}

/-- A finite number prints as its sign and the positional form of its shortest digits. -/
theorem text_finite (finite : x.isFinite = true) :
    text x = sign x ++ (shortest Tie.up x).positional := by
  rw [text, isNaN_of_finite finite, isInf_of_finite finite]
  rfl

/-- **A whole number of magnitude below `10 ^ 15` prints as an integer with its sign.** -/
theorem text_whole (whole : isWhole x = true) (below : units x < tenPow 15 * unitsPerOne) :
    text x = sign x ++ toString (units x / unitsPerOne) := by
  rw [isWhole, Bool.and_eq_true, beq_iff_eq] at whole
  obtain ⟨finite, none⟩ := whole
  have divides : unitsPerOne ∣ units x := Nat.dvd_of_mod_eq_zero none
  have split : units x = units x / unitsPerOne * unitsPerOne := (Nat.div_mul_cancel divides).symm
  have small : units x / unitsPerOne < tenPow 15 :=
    (Nat.div_lt_iff_lt_mul unitsPerOne_pos).2 below
  rw [text_finite finite, positional_whole finite split small]

end Lox.Number
