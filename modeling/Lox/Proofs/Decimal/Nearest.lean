import Lox.Decimal.Shortest
import Lox.Proofs.Decimal.Doubles

/-!
# Decimals that read back

A number that is the magnitude of a finite double is read as that double (`nearestBits_of_exact`): no
digit is lost where nothing has to be rounded. So the decimal with all the digits of a double reads
back, and `shortest`, which gives that one where it finds no shorter one that does, always gives one
that does.
-/

namespace Lox.Decimal

theorem twoPow_pos (n : Nat) : 0 < twoPow n := Nat.pow_pos (by decide)

theorem unitsPerOne_pos : 0 < unitsPerOne := twoPow_pos 1074

theorem tenPow_pos (n : Nat) : 0 < tenPow n := Nat.pow_pos (by decide)

theorem twoPow_add (m n : Nat) : twoPow (m + n) = twoPow m * twoPow n := Nat.pow_add 2 m n

theorem tenPow_eq (n : Nat) : tenPow n = Nat.pow 5 n * twoPow n := Nat.mul_pow 5 2 n

/-! ## Patterns and magnitudes -/

/-- What a magnitude has above 53 bits is the scale of its pattern. -/
theorem log2_scaled {m scale : Nat} (bound : m < twoPow 53) (normal : scale = 0 ∨ twoPow 52 ≤ m) :
    (m * twoPow scale).log2 - 52 = scale := by
  rcases normal with rfl | normal
  · have one : twoPow 0 = 1 := rfl
    rw [one, Nat.mul_one]
    rcases Nat.eq_zero_or_pos m with rfl | positive
    · rfl
    · have short : m.log2 < 53 := (Nat.log2_lt positive.ne').2 bound
      omega
  · have low : twoPow (52 + scale) ≤ m * twoPow scale := by
      rw [twoPow_add]
      exact Nat.mul_le_mul_right _ normal
    have high : m * twoPow scale < twoPow (52 + scale + 1) := by
      rw [Nat.add_right_comm, twoPow_add]
      exact Nat.mul_lt_mul_of_pos_right bound (twoPow_pos scale)
    have positive : m * twoPow scale ≠ 0 := ((twoPow_pos _).trans_le low).ne'
    rw [(Nat.log2_eq_iff positive).2 ⟨low, high⟩]
    omega

/-- A pattern is the sum of its scale and a number that, shifted by the scale, is the magnitude. -/
theorem unitsOfBits_form (bits : Nat) :
    ∃ scale m, bits = scale * twoPow 52 + m ∧ unitsOfBits bits = m * twoPow scale ∧
      m < twoPow 53 ∧ (scale = 0 ∨ twoPow 52 ≤ m) := by
  have split := Nat.div_add_mod bits (twoPow 52)
  have small := Nat.mod_lt bits (twoPow_pos 52)
  have double : twoPow 53 = twoPow 52 + twoPow 52 := rfl
  unfold unitsOfBits
  generalize bits % twoPow 52 = fraction at *
  cases exponent : bits / twoPow 52 with
  | zero =>
    rw [exponent] at split
    exact ⟨0, fraction, by omega, (Nat.mul_one _).symm, by omega, .inl rfl⟩
  | succ k =>
    rw [exponent, Nat.mul_succ, Nat.mul_comm] at split
    exact ⟨k, twoPow 52 + fraction, by omega, rfl, by omega, .inr (Nat.le_add_right _ _)⟩

/-! ## Rounding -/

theorem roundHalfEven_mul (quotient : Nat) {den : Nat} (positive : 0 < den) :
    roundHalfEven (quotient * den) den = quotient := by
  unfold roundHalfEven
  rw [Nat.mul_div_cancel _ positive, Nat.mul_mod_left]
  exact if_pos (.inl positive)

/-- A fraction that is the magnitude of a double is read as that double. -/
theorem nearestBits_of_exact {num den bits : Nat} (positive : 0 < den) (finite : bits < infinityBits)
    (exact : num * unitsPerOne = unitsOfBits bits * den) : nearestBits num den = bits := by
  obtain ⟨scale, m, form, magnitude, bound, normal⟩ := unitsOfBits_form bits
  have rounded : roundHalfEven (num * unitsPerOne) (den * twoPow scale) = m := by
    rw [exact, magnitude, Nat.mul_assoc, Nat.mul_comm (twoPow scale)]
    exact roundHalfEven_mul m (Nat.mul_pos positive (twoPow_pos scale))
  have whole : num * unitsPerOne / den = m * twoPow scale := by
    rw [exact, Nat.mul_div_cancel _ positive, magnitude]
  simp only [nearestBits]
  rw [whole, log2_scaled bound normal, rounded, ← form]
  exact Nat.min_eq_left finite.le

/-! ## Reading -/

/-- What is read has no sign. -/
theorem toBits_toFloat (d : Decimal) :
    d.toFloat.toBits.toNat =
      nearestBits (d.digits * tenPow d.exponent.toNat) (tenPow (-d.exponent).toNat) :=
  toBits_ofBits (Nat.min_le_right _ _)

theorem isNegative_toFloat (d : Decimal) : isNegative d.toFloat = false := by
  have bound : d.toFloat.toBits.toNat ≤ infinityBits :=
    (toBits_toFloat d).trans_le (Nat.min_le_right _ _)
  have small : infinityBits < twoPow 63 := by decide
  exact decide_eq_false (bound.trans_lt small).not_ge

theorem magnitudeBits_toFloat (d : Decimal) :
    magnitudeBits d.toFloat =
      nearestBits (d.digits * tenPow d.exponent.toNat) (tenPow (-d.exponent).toNat) := by
  have whole := toBits_eq d.toFloat
  rw [isNegative_toFloat, toBits_toFloat] at whole
  exact ((Nat.zero_add _).symm.trans whole.symm)

/-- A decimal that is the magnitude of a finite double reads as that double. -/
theorem readsAs_of_exact {d : Decimal} {x : Float} (finite : x.isFinite = true)
    (exact : d.digits * tenPow d.exponent.toNat * unitsPerOne =
      units x * tenPow (-d.exponent).toNat) : d.readsAs x = true := by
  rw [readsAs, magnitudeBits_toFloat, beq_iff_eq]
  exact nearestBits_of_exact (tenPow_pos _) ((isFinite_iff x).1 finite) exact

/-! ## The shortest decimal -/

section

variable {tie : Tie} {x : Float} {d e : Decimal}

theorem nearer_eq (tie : Tie) (x : Float) (d : Decimal) :
    nearer tie x d = d ∨ nearer tie x d = d.next := by
  unfold nearer
  generalize 2 * units x * _ = twice
  generalize (2 * d.digits + 1) * _ * _ = middle
  dsimp only
  split
  · exact .inl rfl
  · split
    · exact .inr rfl
    · cases tie with
      | up => exact .inr rfl
      | even =>
        dsimp only
        split
        · exact .inl rfl
        · exact .inr rfl

/-- The equation of `pick`. It is taken from that of the functions: to check it with the arguments in
place is to compute with them. -/
theorem pick_eq (tie : Tie) (x : Float) (d : Decimal) :
    pick tie x d =
      match d.readsAs x, d.next.readsAs x with
      | true, true => some (nearer tie x d)
      | true, false => some d
      | false, true => some d.next
      | false, false => none :=
  have equation : pick = fun tie x d =>
      match d.readsAs x, d.next.readsAs x with
      | true, true => some (nearer tie x d)
      | true, false => some d
      | false, true => some d.next
      | false, false => none := rfl
  congrFun (congrFun (congrFun equation tie) x) d

/-- A decimal is picked only if it reads back. -/
theorem pick_readsAs (picked : pick tie x d = some e) : e.readsAs x = true := by
  rw [pick_eq] at picked
  cases first : d.readsAs x <;> cases second : d.next.readsAs x <;> rw [first, second] at picked
  · cases picked
  · rw [← Option.some.inj picked, second]
  · rw [← Option.some.inj picked, first]
  · rw [← Option.some.inj picked]
    rcases nearer_eq tie x d with same | same
    · rw [same, first]
    · rw [same, second]

/-- The magnitude of a finite double, with a place for every halving of the unit. -/
theorem readsAs_halvings {places : Nat} (finite : x.isFinite = true)
    (halvings : unitsPerOne = twoPow places) :
    readsAs ⟨units x * Nat.pow 5 places, -(places : Int)⟩ x = true := by
  apply readsAs_of_exact finite
  have noPlaces : (-(places : Int)).toNat = 0 := by omega
  rw [noPlaces, Int.neg_neg, Int.toNat_natCast, halvings, tenPow_eq places, ← Nat.mul_assoc]
  exact congrArg (· * _) (Nat.mul_one _)

theorem exact_readsAs (finite : x.isFinite = true) : (exact x).readsAs x = true := by
  -- a name for the number of places, so that no power of them is computed
  obtain ⟨places, same⟩ : ∃ places, 1074 = places := ⟨_, rfl⟩
  have below : (-1074 : Int) = -(places : Int) := by omega
  have halvings : unitsPerOne = twoPow places := by rw [unitsPerOne, same]
  rw [exact, same, below]
  exact readsAs_halvings finite halvings

/-- **The shortest decimal of a finite double reads back.** -/
theorem shortest_readsAs (tie : Tie) (finite : x.isFinite = true) :
    (shortest tie x).readsAs x = true := by
  unfold shortest
  split
  · next zero =>
    apply readsAs_of_exact finite
    rw [zero]
    simp only [Nat.zero_mul]
  · dsimp only
    generalize found : List.findSome? _ _ = hit
    cases hit with
    | none => exact exact_readsAs finite
    | some e =>
      obtain ⟨i, -, picked⟩ := List.exists_of_findSome?_eq_some found
      exact pick_readsAs picked

end

end Lox.Decimal
