import LoopLang.Number.Shortest

/-! How a double is written. The digits are always the shortest that read back; a style says which
magnitudes are written plainly, how the others show their exponent, and what stands for the values
that have no digits. -/
namespace LoopLang

namespace Decimal

/-- The digits, most significant first. -/
def figures (decimal : Decimal) : List Char := Nat.toDigits 10 decimal.digits

/-- The power of ten of the first digit. -/
def leading (decimal : Decimal) : Int := decimal.exponent + decimal.figures.length - 1

/-- The digits around a point, with at least one digit on each side. -/
def plain (decimal : Decimal) : List Char :=
  let whole := (decimal.leading + 1).toNat
  if decimal.leading < 0 then
    '0' :: '.' :: (List.replicate (-(decimal.leading + 1)).toNat '0' ++ decimal.figures)
  else if decimal.figures.length ≤ whole then
    decimal.figures ++ List.replicate (whole - decimal.figures.length) '0' ++ ['.', '0']
  else
    decimal.figures.take whole ++ '.' :: decimal.figures.drop whole

/-- One digit, a point with the others, a mark and the power of ten of the first digit. Without
further digits the point stays away, or is followed by a zero when `padded`. -/
def scientific (mark : Char) (padded : Bool) (decimal : Decimal) : List Char :=
  let fraction :=
    match decimal.figures.drop 1 with
    | [] => if padded then ['.', '0'] else []
    | digits => '.' :: digits
  decimal.figures.take 1 ++ fraction ++ mark :: (toString decimal.leading).toList

end Decimal

namespace Number

/-- The choices that a written form of doubles leaves open. -/
structure Style where
  /-- The least power of ten of a first digit that is written plainly. -/
  plainFrom : Int
  /-- The greatest power of ten of a first digit that is written plainly. -/
  plainUpTo : Int
  /-- What stands between the digits and the exponent. -/
  mark : Char
  /-- Whether a single digit is followed by a point and a zero before the mark. -/
  padded : Bool
  /-- The text of every NaN. -/
  nan : String
  /-- The text of the positive infinity. -/
  infinity : String
  /-- The text of the negative infinity. -/
  minusInfinity : String

/-- The text of a magnitude. -/
def Style.digits (style : Style) (magnitude : Binary) : List Char :=
  let decimal := magnitude.shortest
  if style.plainFrom ≤ decimal.leading ∧ decimal.leading ≤ style.plainUpTo then decimal.plain
  else decimal.scientific style.mark style.padded

/-- The text of a number; the sign of zero is written too. -/
def write (style : Style) (number : Number) : String :=
  match number.meaning with
  | .nan => style.nan
  | .infinite true => style.minusInfinity
  | .infinite false => style.infinity
  | .finite true magnitude => String.ofList ('-' :: style.digits magnitude)
  | .finite false magnitude => String.ofList (style.digits magnitude)

end Number
end LoopLang
