import LoopLang.Number.Basic

/-! The fewest decimal digits that read back as a given double. A decimal grid holds the multiples of
one power of ten; a coarser grid writes fewer digits. Grids are tried from coarse to fine, and on
each one only the two neighbours of the value can round to it. The finest grid holds the value
itself, so the search always ends. -/
namespace LoopLang

/-- The decimal `digits * 10 ^ exponent`. -/
structure Decimal where
  digits : Nat
  exponent : Int
deriving DecidableEq, Repr

namespace Binary

/-- At a power of two the neighbour below is only half a place away, the least place excepted. -/
def narrowBelow (value : Binary) : Bool :=
  decide (value.significand = leadingBit) && decide (-1074 < value.exponent)

/-- One step of the grid of `10 ^ grid`, on an integer scale shared with `quarter`. -/
def step (value : Binary) (grid : Int) : Nat :=
  Nat.pow 10 grid.toNat * Nat.pow 2 (2 - value.exponent).toNat

/-- A quarter of the last place of the value, on an integer scale shared with `step`. -/
def quarter (value : Binary) (grid : Int) : Nat :=
  Nat.pow 2 (value.exponent - 2).toNat * Nat.pow 10 (-grid).toNat

/-- Whether a real at a distance from the value still rounds to it, when the halfway point on its side
is `half` away. The halfway points themselves go to an even significand. -/
def near (value : Binary) (distance half : Nat) : Bool :=
  if value.significand % 2 = 0 then decide (distance ≤ half) else decide (distance < half)

/-- The point of the grid nearest to the value among its two neighbours that round to it. Of two
equally near ones it is the upper. -/
def onGrid? (value : Binary) (grid : Int) : Option Nat :=
  let step := value.step grid
  let quarter := value.quarter grid
  let exact := 4 * value.significand * quarter
  let below := exact / step
  let past := exact % step
  let lower := value.near past ((if value.narrowBelow then 1 else 2) * quarter)
  let upper := value.near (step - past) (2 * quarter)
  if lower && (!upper || decide (2 * past < step)) then some below
  else if upper then some (below + 1)
  else none

/-- A grid that holds the value itself. -/
def finest (value : Binary) : Int := min value.exponent 0

/-- The value itself, as a multiple of the step of its finest grid. -/
def exactDigits (value : Binary) : Nat :=
  value.significand * Nat.pow 2 value.exponent.toNat * Nat.pow 5 (-value.exponent).toNat

/-- A grid whose first step lies above everything that rounds to the value: ten to the 4/13 is more
than two, and ten to the 3/10 is less. -/
def coarsest (value : Binary) : Int :=
  let width := (Nat.log2 value.significand : Int) + 1 + value.exponent
  if 0 ≤ width then 4 * width / 13 + 1 else 3 * width / 10 + 1

/-- Tries the grid `count` steps coarser than the finest one, then the finer ones. -/
def search (value : Binary) : Nat → Decimal
  | 0 => ⟨value.exactDigits, value.finest⟩
  | count + 1 =>
    match value.onGrid? (value.finest + (count + 1)) with
    | some digits => ⟨digits, value.finest + (count + 1)⟩
    | none => search value count

/-- The decimal with the fewest digits that rounds to the value, and of those the nearest one. -/
def shortest (value : Binary) : Decimal :=
  if value.significand = 0 then ⟨0, 0⟩
  else value.search (value.coarsest - value.finest).toNat

/-- The finest grid holds the value: its exact digits make as many steps as the value has quarters of
its last place. -/
theorem exactDigits_step (value : Binary) :
    value.exactDigits * value.step value.finest = 4 * value.significand * value.quarter value.finest := by
  cases value with
  | mk significand exponent =>
    simp only [exactDigits, step, quarter, finest, Nat.pow_eq]
    by_cases whole : 0 ≤ exponent
    · have grid : min exponent 0 = 0 := by omega
      have fraction : (-exponent).toNat = 0 := by omega
      have powers : 2 ^ exponent.toNat * 2 ^ (2 - exponent).toNat = 4 * 2 ^ (exponent - 2).toNat := by
        rw [← Nat.pow_add, show 4 = 2 ^ 2 from rfl, ← Nat.pow_add]
        congr 1
        omega
      rw [grid, fraction]
      simp only [Int.toNat_zero, Int.neg_zero, Nat.pow_zero, Nat.mul_one, Nat.one_mul]
      rw [Nat.mul_assoc, powers, ← Nat.mul_assoc, Nat.mul_comm significand 4]
    · have grid : min exponent 0 = exponent := by omega
      have none : exponent.toNat = 0 := by omega
      have low : (exponent - 2).toNat = 0 := by omega
      have high : (2 - exponent).toNat = 2 + (-exponent).toNat := by omega
      have tens : 10 ^ (-exponent).toNat = 5 ^ (-exponent).toNat * 2 ^ (-exponent).toNat :=
        Nat.mul_pow 5 2 _
      rw [grid, none, low, high, Nat.pow_add, tens]
      simp only [Nat.pow_zero, Nat.mul_one, Nat.one_mul]
      rw [Nat.mul_comm 4 significand, Nat.mul_assoc, Nat.mul_assoc]
      congr 1
      rw [← Nat.mul_assoc, Nat.mul_comm _ (2 ^ 2), Nat.mul_assoc]

end Binary
end LoopLang
