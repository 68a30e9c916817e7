import Mathlib
import Lox.Decimal.Double

/-!
# Doubles and their bits

A double is known by its bits, and a finite one by its magnitude and its sign: a pattern below that
of infinity is the magnitude of one double without a sign, and to negate that double sets the sign
and leaves the magnitude.
-/

namespace Lox.Decimal

open Float.Model (Format UnpackedFloat)
open Float.Model.UnpackedFloat (Sign unpackExponent unpackMantissa unpackSign isNaNBits)

theorem twoPow_52 : twoPow 52 = 4503599627370496 := rfl

theorem twoPow_63 : twoPow 63 = 9223372036854775808 := rfl

theorem infinityBits_eq : infinityBits = 9218868437227405312 := rfl

/-! ## The fields of a pattern -/

section fields

variable (b : BitVec Format.binary64.numBits)

theorem exponent_toNat : (unpackExponent b).toNat = b.toNat / twoPow 52 % 2048 := by
  rw [UnpackedFloat.unpackExponent_def, BitVec.extractLsb'_toNat, Nat.shiftRight_eq_div_pow]
  rfl

theorem mantissa_toNat : (unpackMantissa b).toNat = b.toNat % twoPow 52 := by
  rw [UnpackedFloat.unpackMantissa_def, BitVec.extractLsb'_toNat, Nat.shiftRight_zero]
  rfl

theorem sign_toNat : (unpackSign b).toNat = b.toNat / twoPow 63 % 2 := by
  rw [UnpackedFloat.unpackSign_def, BitVec.extractLsb'_toNat, Nat.shiftRight_eq_div_pow]
  rfl

theorem exponent_ones_iff :
    unpackExponent b = -BitVec.ofNat Format.binary64.exponentBits 1 ↔
      b.toNat / twoPow 52 % 2048 = 2047 := by
  rw [← BitVec.toNat_inj, exponent_toNat]
  rfl

theorem mantissa_zero_iff :
    unpackMantissa b = BitVec.ofNat Format.binary64.mantissaBitsWithoutImplicit 0 ↔
      b.toNat % twoPow 52 = 0 := by
  rw [← BitVec.toNat_inj, mantissa_toNat]
  rfl

/-- Only a pattern above that of infinity is not a number. -/
theorem isNaNBits_of_le (le : b.toNat ≤ infinityBits) : isNaNBits b = false := by
  refine decide_eq_false fun ⟨ones, notZero⟩ => notZero ?_
  rw [exponent_ones_iff, twoPow_52] at ones
  rw [mantissa_zero_iff, twoPow_52]
  rw [infinityBits_eq] at le
  omega

/-- A double is finite if its exponent does not have all bits set. -/
theorem isFinite_unpack :
    (UnpackedFloat.unpack Format.binary64 b).isFinite = true ↔
      b.toNat / twoPow 52 % 2048 ≠ 2047 := by
  rw [Ne, ← exponent_ones_iff]
  simp only [UnpackedFloat.unpack]
  split_ifs with ones <;> simp only [UnpackedFloat.isFinite, ones, Bool.false_eq_true,
    not_true_eq_false, not_false_eq_true]

/-- Patterns that differ in the sign alone stand for opposite numbers. -/
theorem unpack_opposite {b b' : BitVec Format.binary64.numBits}
    (exponents : unpackExponent b = unpackExponent b')
    (mantissas : unpackMantissa b = unpackMantissa b')
    (signs : Sign.ofBitVec (unpackSign b) = -Sign.ofBitVec (unpackSign b')) :
    UnpackedFloat.unpack Format.binary64 b = (UnpackedFloat.unpack Format.binary64 b').neg := by
  simp only [UnpackedFloat.unpack, exponents, mantissas, signs]
  split_ifs <;> rfl

end fields

/-! ## From a pattern to a double -/

/-- A magnitude is read back from the double of this pattern. -/
theorem toBits_ofBits {n : Nat} (le : n ≤ infinityBits) :
    (Float.ofBits (UInt64.ofNat n)).toBits.toNat = n := by
  have size : (UInt64.ofNat n).toBitVec.toNat = n := by
    have small : n < UInt64.size := le.trans_lt (by decide)
    exact UInt64.toNat_ofNat_of_lt small
  have number : @isNaNBits Format.binary64 (UInt64.ofNat n).toBitVec = false :=
    isNaNBits_of_le _ (by rw [size]; exact le)
  have packed := @UnpackedFloat.pack_unpack Format.binary64 (UInt64.ofNat n).toBitVec
  rw [number] at packed
  calc (Float.ofBits (UInt64.ofNat n)).toBits.toNat
      = (UnpackedFloat.pack Format.binary64
          (UnpackedFloat.unpack Format.binary64 (UInt64.ofNat n).toBitVec)).toNat := rfl
    _ = (UInt64.ofNat n).toBitVec.toNat := by rw [packed]; rfl
    _ = n := size

/-! ## Finite doubles -/

/-- The finite doubles are those with a magnitude below infinity. -/
theorem isFinite_iff (x : Float) : x.isFinite = true ↔ magnitudeBits x < infinityBits := by
  have bound := x.toBits.toNat_lt
  have finite := isFinite_unpack x.toBits.toBitVec
  rw [show x.isFinite = (UnpackedFloat.unpack Format.binary64 x.toBits.toBitVec).isFinite from rfl,
    finite, magnitudeBits, UInt64.toNat_toBitVec, twoPow_52, twoPow_63, infinityBits_eq]
  omega

theorem isNaN_of_finite {x : Float} (finite : x.isFinite = true) : x.isNaN = false := by
  change x.toModel.unpack.isNaN = false
  change x.toModel.unpack.isFinite = true at finite
  cases unpacked : x.toModel.unpack <;> simp_all [UnpackedFloat.isFinite, UnpackedFloat.isNaN]

theorem isInf_of_finite {x : Float} (finite : x.isFinite = true) : x.isInf = false := by
  change x.toModel.unpack.isInf = false
  change x.toModel.unpack.isFinite = true at finite
  cases unpacked : x.toModel.unpack <;> simp_all [UnpackedFloat.isFinite, UnpackedFloat.isInf]

/-- The sign and the magnitude make up the bits. -/
theorem toBits_eq (x : Float) :
    x.toBits.toNat = (if isNegative x then twoPow 63 else 0) + magnitudeBits x := by
  have bound := x.toBits.toNat_lt
  unfold isNegative magnitudeBits
  rw [twoPow_63]
  by_cases negative : 9223372036854775808 ≤ x.toBits.toNat
  · rw [if_pos (decide_eq_true negative)]
    omega
  · rw [if_neg (by simpa using negative)]
    omega

/-- A double is its sign and its magnitude. -/
theorem eq_of_magnitude {x y : Float} (signs : isNegative x = isNegative y)
    (magnitudes : magnitudeBits x = magnitudeBits y) : x = y := by
  refine Float.toBits_inj.1 (UInt64.toNat_inj.1 ?_)
  rw [toBits_eq x, toBits_eq y, signs, magnitudes]

/-- To negate a double without a sign gives the one with the sign. -/
theorem neg_eq_of_magnitude {x y : Float} (negative : isNegative x = true)
    (positive : isNegative y = false) (magnitudes : magnitudeBits x = magnitudeBits y) : -y = x := by
  have bitsOfX : x.toBits.toBitVec.toNat = twoPow 63 + magnitudeBits x := by
    rw [UInt64.toNat_toBitVec, toBits_eq, if_pos negative]
  have bitsOfY : y.toBits.toBitVec.toNat = magnitudeBits x := by
    rw [UInt64.toNat_toBitVec, toBits_eq, positive, magnitudes]
    exact Nat.zero_add _
  have bound : magnitudeBits x < twoPow 63 := Nat.mod_lt _ (by decide)
  rw [twoPow_63] at bitsOfX bound
  have exponents : @unpackExponent Format.binary64 x.toBits.toBitVec =
      @unpackExponent Format.binary64 y.toBits.toBitVec := by
    rw [← BitVec.toNat_inj, exponent_toNat, exponent_toNat, bitsOfX, bitsOfY, twoPow_52]
    omega
  have mantissas : @unpackMantissa Format.binary64 x.toBits.toBitVec =
      @unpackMantissa Format.binary64 y.toBits.toBitVec := by
    rw [← BitVec.toNat_inj, mantissa_toNat, mantissa_toNat, bitsOfX, bitsOfY, twoPow_52]
    omega
  have signOfX : @unpackSign Format.binary64 x.toBits.toBitVec = 1#1 := by
    rw [← BitVec.toNat_inj, sign_toNat, bitsOfX, twoPow_63]
    show _ = 1
    omega
  have signOfY : @unpackSign Format.binary64 y.toBits.toBitVec = 0#1 := by
    rw [← BitVec.toNat_inj, sign_toNat, bitsOfY, twoPow_63]
    show _ = 0
    omega
  have opposite := unpack_opposite exponents mantissas (by rw [signOfX, signOfY]; rfl)
  refine Float.toBits_inj.1 (UInt64.toBitVec_inj.1 ?_)
  calc (-y).toBits.toBitVec
      = UnpackedFloat.pack Format.binary64
          (UnpackedFloat.unpack Format.binary64 y.toBits.toBitVec).neg := rfl
    _ = UnpackedFloat.pack Format.binary64
          (UnpackedFloat.unpack Format.binary64 x.toBits.toBitVec) := by rw [opposite]
    _ = x.toBits.toBitVec := UnpackedFloat.pack_unpack_of_valid x.toModel.valid

end Lox.Decimal
