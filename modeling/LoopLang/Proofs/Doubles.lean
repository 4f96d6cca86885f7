import LoopLang.Expr.Basic
import LoopLang.Proofs.Rounding
import Mathlib

/-! The doubles that are computed with. There is only one NaN among them, whatever bits it was made from, and
negation turns the sign of everything else. So equality by comparison is equality, but for two things: the NaN is
not equal to itself, and the two zeros are equal to each other. -/
namespace LoopLang

namespace Number
open Float.Model Float.Model.UnpackedFloat
variable {number other : Number} {magnitude : Binary}

/-! ### Bit patterns -/

private theorem unpackExponent_bits (number : Number) :
    (@unpackExponent Format.binary64 number.bits.toBitVec).toNat = number.exponentField := by
  rw [unpackExponent_def, BitVec.extractLsb'_toNat, Nat.shiftRight_eq_div_pow]
  rfl

private theorem unpackMantissa_bits (number : Number) :
    (@unpackMantissa Format.binary64 number.bits.toBitVec).toNat = number.fractionField := by
  rw [unpackMantissa_def, BitVec.extractLsb'_toNat, Nat.shiftRight_eq_div_pow, Nat.pow_zero, Nat.div_one]
  rfl

private theorem isNaNBits_iff :
    @isNaNBits Format.binary64 number.bits.toBitVec = true ↔ number.meaning = .nan := by
  rw [isNaNBits, decide_eq_true_iff, ← BitVec.toNat_inj, ne_eq, ← BitVec.toNat_inj, unpackExponent_bits,
    unpackMantissa_bits]
  change number.exponentField = 2047 ∧ ¬ number.fractionField = 0 ↔ number.meaning = .nan
  unfold meaning
  split
  · split <;> simp [*]
  · split <;> simp [*]

/-- All NaNs are computed with as the same value. -/
theorem toFloat_eq_of_nan (nan : number.meaning = .nan) (nan' : other.meaning = .nan) :
    number.toFloat = other.toFloat := by
  have packed := @pack_unpack Format.binary64 number.bits.toBitVec (by decide)
  have packed' := @pack_unpack Format.binary64 other.bits.toBitVec (by decide)
  rw [if_pos (isNaNBits_iff.mpr nan)] at packed
  rw [if_pos (isNaNBits_iff.mpr nan')] at packed'
  exact Float.toBits_inj.mp (congrArg UInt64.ofBitVec (packed.trans packed'.symm))

private theorem unpackSign_bits (number : Number) :
    (@unpackSign Format.binary64 number.bits.toBitVec).toNat =
      number.bits.toNat / 0x8000000000000000 % 2 := by
  rw [unpackSign_def, BitVec.extractLsb'_toNat, Nat.shiftRight_eq_div_pow]
  rfl

/-- The sign bit turns the sign, -/
private theorem unpack_eq_neg (negative : number.negative = true) :
    UnpackedFloat.unpack Format.binary64 number.bits.toBitVec =
      (UnpackedFloat.unpack Format.binary64 number.unsigned.bits.toBitVec).neg := by
  have exponent : @unpackExponent Format.binary64 number.unsigned.bits.toBitVec =
      @unpackExponent Format.binary64 number.bits.toBitVec := by
    rw [← BitVec.toNat_inj, unpackExponent_bits, unpackExponent_bits, exponentField_unsigned]
  have mantissa : @unpackMantissa Format.binary64 number.unsigned.bits.toBitVec =
      @unpackMantissa Format.binary64 number.bits.toBitVec := by
    rw [← BitVec.toNat_inj, unpackMantissa_bits, unpackMantissa_bits, fractionField_unsigned]
  have one : @unpackSign Format.binary64 number.bits.toBitVec = 1#1 := by
    have bound := number.bits.toNat_lt
    simp only [Number.negative, decide_eq_true_eq] at negative
    rw [← BitVec.toNat_inj, unpackSign_bits, BitVec.toNat_ofNat]
    omega
  have zero : @unpackSign Format.binary64 number.unsigned.bits.toBitVec = 0#1 := by
    rw [← BitVec.toNat_inj, unpackSign_bits, bits_unsigned, BitVec.toNat_ofNat]
    omega
  simp only [UnpackedFloat.unpack, exponent, mantissa, one, zero]
  split
  · split <;> rfl
  · split
    · split <;> rfl
    · rfl

/-- so a negative number is its magnitude, negated. -/
theorem neg_toFloat_unsigned (finite : number.meaning = .finite true magnitude) :
    -number.unsigned.toFloat = number.toFloat := by
  have packed := @pack_unpack Format.binary64 number.unsigned.bits.toBitVec (by decide)
  rw [if_neg (by simp [isNaNBits_iff, meaning_unsigned finite])] at packed
  have turned := unpack_eq_neg (meaning_finite finite).1
  refine Float.toBits_inj.mp (congrArg UInt64.ofBitVec ?_)
  change UnpackedFloat.pack _ (UnpackedFloat.unpack Format.binary64 (UnpackedFloat.pack _
    (UnpackedFloat.unpack Format.binary64 number.unsigned.bits.toBitVec))).neg =
    UnpackedFloat.pack _ (UnpackedFloat.unpack Format.binary64 number.bits.toBitVec)
  rw [packed, turned]

end Number

/-! ### Comparisons -/

namespace Double
variable {first second : Float}

/-- A zero of either sign. -/
def IsZero (value : Float) : Prop := value = 0.0 ∨ value = -0.0

private theorem IsZero.number {value : Float} (zero : IsZero value) : value.isNaN = false := by
  rcases zero with rfl | rfl <;> rfl

/-- Doubles compare equal if they are the same number or two zeros. A NaN is not equal to itself. -/
theorem beq_iff : (first == second) = true ↔
    first.isNaN = false ∧ (first = second ∨ IsZero first ∧ IsZero second) := by
  have not_nan (value : Float) : value ≠ Float.nan ↔ value.isNaN = false := by simp
  have zeros : (0 : Float) = 0.0 := by rfl
  rw [Float.beq_iff_ne_nan_and_eq, not_nan, not_nan, zeros]
  constructor
  · rintro ⟨number, -, same | ⟨positive, negative⟩ | ⟨negative, positive⟩⟩
    · exact ⟨number, .inl same⟩
    · exact ⟨number, .inr ⟨.inl positive, .inr negative⟩⟩
    · exact ⟨number, .inr ⟨.inr negative, .inl positive⟩⟩
  · rintro ⟨number, rfl | ⟨zero, zero'⟩⟩
    · exact ⟨number, number, .inl rfl⟩
    · refine ⟨number, zero'.number, ?_⟩
      rcases zero with rfl | rfl <;> rcases zero' with rfl | rfl <;> simp

/-- The zeros of both signs are what compares equal to zero. -/
theorem beq_zero_iff {value : Float} : (value == 0.0) = true ↔ IsZero value := by
  have zero : IsZero 0.0 := .inl rfl
  rw [beq_iff]
  constructor
  · rintro ⟨-, rfl | ⟨zero, -⟩⟩
    · exact .inl rfl
    · exact zero
  · exact fun isZero => ⟨isZero.number, .inr ⟨isZero, zero⟩⟩

end Double
end LoopLang
