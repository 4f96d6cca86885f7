/-! A number of the language is a double, kept by its bit pattern: two numbers are the same exactly
when every bit agrees, the sign of zero and the payload of a NaN included. Arithmetic happens on
`Float`; what a pattern stands for is read off its fields as exact integers. -/
namespace LoopLang

/-- A double by its bit pattern. -/
structure Number where
  /-- The sign bit, eleven bits of exponent and 52 bits of fraction. -/
  bits : UInt64
deriving DecidableEq, Hashable, Repr

/-- The magnitude `significand * 2 ^ exponent` of a finite double. -/
structure Binary where
  /-- At most 53 bits, the first of which is set unless the exponent is the least one. -/
  significand : Nat
  /-- The place of the last bit of the significand, from -1074 to 971. -/
  exponent : Int
deriving DecidableEq, Repr

/-- The first of the 53 bits of a significand, `2 ^ 52`. -/
def Binary.leadingBit : Nat := 0x10000000000000

namespace Number

/-- The double to compute with. -/
def toFloat (number : Number) : Float := Float.ofBits number.bits

/-- The bit pattern of a computed value. -/
def ofFloat (value : Float) : Number := ⟨value.toBits⟩

/-- What a bit pattern stands for. -/
inductive Meaning where
  /-- No number at all. -/
  | nan
  /-- Larger than every finite magnitude. -/
  | infinite (negative : Bool)
  /-- A signed finite magnitude; zero has both signs. -/
  | finite (negative : Bool) (magnitude : Binary)
deriving DecidableEq, Repr

/-- Whether the sign bit is set. -/
def negative (number : Number) : Bool := decide (0x8000000000000000 ≤ number.bits.toNat)

/-- The eleven bits that place the significand. -/
def exponentField (number : Number) : Nat := number.bits.toNat / Binary.leadingBit % 0x800

/-- The 52 bits of the significand after its leading bit. -/
def fractionField (number : Number) : Nat := number.bits.toNat % Binary.leadingBit

/-- The greatest exponent field marks the infinities and, with a fraction, the NaNs; the least one
has no leading bit and shares its place with the field above it. -/
def meaning (number : Number) : Meaning :=
  if number.exponentField = 2047 then
    if number.fractionField = 0 then .infinite number.negative else .nan
  else if number.exponentField = 0 then
    .finite number.negative ⟨number.fractionField, -1074⟩
  else
    .finite number.negative ⟨Binary.leadingBit + number.fractionField, number.exponentField - 1075⟩

end Number
end LoopLang
