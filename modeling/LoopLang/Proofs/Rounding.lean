import LoopLang.Number.Shortest
import Mathlib.Algebra.Order.Field.Power
import Mathlib.Algebra.Field.Rat
import Mathlib.Algebra.Order.Ring.Rat
import Mathlib.Tactic.FieldSimp
import Mathlib.Tactic.Linarith
import Mathlib.Tactic.LinearCombination
import Mathlib.Tactic.Ring
import Mathlib.Tactic.Positivity

/-! What rounds to a double. Around each magnitude lies an interval that ends halfway to its neighbours,
and a decimal in it reads back as that magnitude. The shortest decimal lies in the interval because the
search on a grid compares distances exactly, on an integer scale; intervals of different magnitudes have
no number in common, since two neighbours never both have an even significand. So the decimal tells
which magnitude it was made from. -/
namespace LoopLang

/-- The number that a decimal stands for. -/
def Decimal.value (decimal : Decimal) : ℚ := decimal.digits * 10 ^ decimal.exponent

namespace Binary

/-- How many quarters of the last place lie between a magnitude and the halfway point below it. -/
def quartersBelow (value : Binary) : Nat := if value.narrowBelow then 1 else 2

private theorem quartersBelow_eq (value : Binary) : value.quartersBelow =
    if value.significand = 0x10000000000000 ∧ -1074 < value.exponent then 1 else 2 := by
  simp only [quartersBelow, narrowBelow, Bool.and_eq_true, decide_eq_true_eq]
  rfl

theorem quartersBelow_le (value : Binary) : value.quartersBelow ≤ 2 := by
  unfold quartersBelow
  split <;> decide

/-- The halfway point to the magnitude below. -/
def beneath (value : Binary) : ℚ :=
  (4 * value.significand - value.quartersBelow) * 2 ^ (value.exponent - 2)

/-- The halfway point to the magnitude above. -/
def above (value : Binary) : ℚ := (4 * value.significand + 2) * 2 ^ (value.exponent - 2)

/-- A number rounds to a magnitude if it lies between the halfway points on both sides; these
themselves go to the magnitude with the even significand. -/
def Covers (value : Binary) (number : ℚ) : Prop :=
  value.beneath ≤ number ∧ number ≤ value.above ∧
    (number = value.beneath ∨ number = value.above → value.significand % 2 = 0)

/-! ### Grids -/

section Grid
variable {value : Binary} {grid : Int}

/-- An integer power as two natural ones, which stand on the two sides of a comparison. -/
private theorem zpow_toNat {base : ℚ} (nonzero : base ≠ 0) (power : Int) :
    base ^ power.toNat = base ^ power * base ^ (-power).toNat := by
  rw [← zpow_natCast, ← zpow_natCast, ← zpow_add₀ nonzero]
  congr 1
  omega

/-- The two integer scales measure the same lengths. -/
private theorem step_mul (value : Binary) (grid : Int) :
    (value.step grid : ℚ) * 2 ^ (value.exponent - 2) = 10 ^ grid * value.quarter grid := by
  have tens := zpow_toNat (by norm_num : (10 : ℚ) ≠ 0) grid
  have twos := zpow_toNat (by norm_num : (2 : ℚ) ≠ 0) (value.exponent - 2)
  rw [neg_sub] at twos
  simp only [step, quarter, Nat.pow_eq]
  push_cast
  rw [tens, twos]
  ring

theorem step_pos (value : Binary) (grid : Int) : 0 < value.step grid :=
  Nat.mul_pos (Nat.pow_pos (by decide)) (Nat.pow_pos (by decide))

theorem quarter_pos (value : Binary) (grid : Int) : 0 < value.quarter grid :=
  Nat.mul_pos (Nat.pow_pos (by decide)) (Nat.pow_pos (by decide))

/-- A point of a grid, measured in quarters of the last place of a magnitude. -/
theorem value_eq (value : Binary) (digits : Nat) (grid : Int) :
    (⟨digits, grid⟩ : Decimal).value =
      (digits * value.step grid / value.quarter grid : ℚ) * 2 ^ (value.exponent - 2) := by
  have quarter : (value.quarter grid : ℚ) ≠ 0 := by exact_mod_cast (value.quarter_pos grid).ne'
  have scales := value.step_mul grid
  rw [Decimal.value]
  field_simp
  linear_combination -(digits : ℚ) * scales

/-- Whether a point of a grid rounds to a magnitude is seen on the integer scale of that grid. -/
theorem covers_iff {digits : Nat} : value.Covers (⟨digits, grid⟩ : Decimal).value ↔
    4 * value.significand * value.quarter grid ≤
        digits * value.step grid + value.quartersBelow * value.quarter grid ∧
      digits * value.step grid ≤
        4 * value.significand * value.quarter grid + 2 * value.quarter grid ∧
      (digits * value.step grid + value.quartersBelow * value.quarter grid =
          4 * value.significand * value.quarter grid ∨
        digits * value.step grid =
          4 * value.significand * value.quarter grid + 2 * value.quarter grid →
        value.significand % 2 = 0) := by
  have scale : (0 : ℚ) < 2 ^ (value.exponent - 2) := by positivity
  have quarter : (0 : ℚ) < value.quarter grid := by exact_mod_cast value.quarter_pos grid
  rw [Covers, beneath, above, value_eq value, mul_le_mul_iff_left₀ scale, mul_le_mul_iff_left₀ scale,
    mul_left_inj' scale.ne', mul_left_inj' scale.ne', le_div_iff₀ quarter, div_le_iff₀ quarter,
    div_eq_iff quarter.ne', div_eq_iff quarter.ne', sub_mul, add_mul, sub_le_iff_le_add, eq_sub_iff_add_eq]
  norm_cast

/-- The test for nearness is the one for halfway points. -/
theorem near_iff {distance half : Nat} : value.near distance half = true ↔
    distance ≤ half ∧ (distance = half → value.significand % 2 = 0) := by
  unfold near
  split <;> simp <;> omega

/-- The two choices on a grid: the neighbour below and the neighbour above, if they are near enough. -/
private theorem onGrid_cases {digits : Nat} (chosen : value.onGrid? grid = some digits) :
    (∃ past, digits * value.step grid + past = 4 * value.significand * value.quarter grid ∧
      value.near past (value.quartersBelow * value.quarter grid) = true) ∨
    ∃ left, digits * value.step grid = 4 * value.significand * value.quarter grid + left ∧
      value.near left (2 * value.quarter grid) = true := by
  unfold onGrid? at chosen
  rw [← quartersBelow] at chosen
  dsimp only at chosen
  have divided := Nat.div_add_mod (4 * value.significand * value.quarter grid) (value.step grid)
  have remains := Nat.mod_lt (4 * value.significand * value.quarter grid) (value.step_pos grid)
  rw [Nat.mul_comm] at divided
  generalize 4 * value.significand * value.quarter grid / value.step grid = below at *
  generalize 4 * value.significand * value.quarter grid % value.step grid = past at *
  split at chosen
  case isTrue taken =>
    cases Option.some.inj chosen
    exact .inl ⟨past, divided, (Bool.and_eq_true_iff.mp taken).1⟩
  case isFalse =>
    split at chosen
    case isFalse => cases chosen
    case isTrue taken =>
      cases Option.some.inj chosen
      refine .inr ⟨value.step grid - past, ?_, taken⟩
      rw [Nat.succ_mul]
      omega

/-- The halfway points are not the magnitude itself. -/
theorem below_pos (value : Binary) (grid : Int) :
    0 < value.quartersBelow * value.quarter grid := by
  refine Nat.mul_pos ?_ (value.quarter_pos grid)
  unfold quartersBelow
  split <;> decide

/-- A point that is chosen on a grid rounds to the magnitude, -/
theorem covers_of_onGrid {digits : Nat} (chosen : value.onGrid? grid = some digits) :
    value.Covers (⟨digits, grid⟩ : Decimal).value := by
  have low := value.below_pos grid
  have high : 0 < 2 * value.quarter grid := Nat.mul_pos (by decide) (value.quarter_pos grid)
  rcases onGrid_cases chosen with ⟨past, place, near⟩ | ⟨left, place, near⟩
  all_goals
    obtain ⟨close, even⟩ := near_iff.mp near
    exact covers_iff.mpr ⟨by omega, by omega, fun halfway => even (by omega)⟩

/-- and so does the magnitude itself. -/
theorem covers_exact (value : Binary) :
    value.Covers (⟨value.exactDigits, value.finest⟩ : Decimal).value := by
  have exact := value.exactDigits_step
  have low := value.below_pos value.finest
  have high := value.quarter_pos value.finest
  exact covers_iff.mpr ⟨by omega, by omega, fun halfway => by omega⟩

/-- Whatever the search stops at rounds to the magnitude. -/
theorem search_covers (value : Binary) (count : Nat) : value.Covers (value.search count).value := by
  induction count with
  | zero => exact value.covers_exact
  | succ count finer =>
    rw [search]
    split
    case h_1 digits chosen => exact covers_of_onGrid chosen
    case h_2 => exact finer

/-- The shortest decimal of a magnitude rounds to it. -/
theorem shortest_covers (value : Binary) : value.Covers value.shortest.value := by
  unfold shortest
  split
  case isTrue zero => exact covers_iff.mpr ⟨by simp [zero], by simp, by simp [zero]⟩
  case isFalse => exact value.search_covers _

end Grid

/-! ### Neighbours -/

/-- The magnitudes that doubles have: 53 bits, the first of which is set above the least exponent. -/
structure Canonical (value : Binary) : Prop where
  fits : value.significand < 2 * leadingBit
  least : -1074 ≤ value.exponent
  leads : -1074 < value.exponent → leadingBit ≤ value.significand

/-- The order of canonical magnitudes, read off their fields. -/
def Before (first second : Binary) : Prop :=
  first.exponent < second.exponent ∨
    first.exponent = second.exponent ∧ first.significand < second.significand

section Neighbours
variable {first second : Binary}

/-- The halfway point beneath a magnitude, in quarters of the last place of an earlier one, is at least the
halfway point above that one. Where the two meet the magnitudes are neighbours, so one of their
significands is odd. -/
private theorem halfway_quarters (small : first.Canonical) (large : second.Canonical)
    (before : first.Before second) :
    ∃ quarters : Int, second.beneath = quarters * 2 ^ (first.exponent - 2) ∧
      4 * first.significand + 2 ≤ quarters ∧
      (4 * first.significand + 2 = quarters → first.significand % 2 = 1 ∨ second.significand % 2 = 1) := by
  have fits := small.fits
  have leads := large.leads
  have least := small.least
  have leads' := small.leads
  unfold leadingBit at fits leads leads'
  refine ⟨(4 * second.significand - second.quartersBelow) *
    2 ^ (second.exponent - first.exponent).toNat, ?_, ?_⟩
  · have split : (2 : ℚ) ^ (second.exponent - 2) =
        2 ^ (second.exponent - first.exponent).toNat * 2 ^ (first.exponent - 2) := by
      rw [← zpow_natCast, ← zpow_add₀ (by norm_num)]
      congr 1
      unfold Before at before
      omega
    rw [beneath, split]
    push_cast
    ring
  · have narrow := second.quartersBelow_eq
    rcases before with below | ⟨same, less⟩
    · have twice : (2 : Int) ≤ 2 ^ (second.exponent - first.exponent).toNat :=
        le_self_pow₀ (by decide) (by omega)
      have grows := Int.mul_le_mul_of_nonneg_left twice
        (show 0 ≤ (4 * second.significand - second.quartersBelow : Int) by split at narrow <;> omega)
      split at narrow <;> omega
    · have wide : second.quartersBelow = 2 := by
        rw [narrow, if_neg]
        omega
      rw [same, Int.sub_self, wide, Int.toNat_zero, pow_zero]
      omega

/-- The interval around a magnitude ends where that of a later one has not begun. -/
private theorem above_le_beneath (small : first.Canonical) (large : second.Canonical)
    (before : first.Before second) :
    first.above ≤ second.beneath := by
  obtain ⟨quarters, beneath, apart, -⟩ := halfway_quarters small large before
  rw [beneath, above]
  refine mul_le_mul_of_nonneg_right ?_ (by positivity)
  exact_mod_cast apart

/-- The intervals around two magnitudes are disjoint. -/
private theorem not_covered_twice (small : first.Canonical) (large : second.Canonical)
    (before : first.Before second)
    {number : ℚ} (covered : first.Covers number) : ¬ second.Covers number := by
  intro again
  obtain ⟨quarters, beneath, -, neighbours⟩ := halfway_quarters small large before
  have scale : (0 : ℚ) < 2 ^ (first.exponent - 2) := by positivity
  have gap := above_le_beneath small large before
  have meet : first.above = second.beneath := le_antisymm gap (again.1.trans covered.2.1)
  have same : 4 * first.significand + 2 = quarters := by
    rw [beneath, above] at meet
    exact_mod_cast mul_right_cancel₀ scale.ne' meet
  have upper : number = first.above := le_antisymm covered.2.1 (meet ▸ again.1)
  have even := covered.2.2 (.inr upper)
  have even' := again.2.2 (.inl (upper.trans meet))
  have odd := neighbours same
  omega

/-- What rounds to a magnitude is less than what rounds to a later one. -/
theorem covered_lt (small : first.Canonical) (large : second.Canonical) (before : first.Before second)
    {number more : ℚ} (covered : first.Covers number) (covered' : second.Covers more) : number < more := by
  have order : number ≤ more := covered.2.1.trans ((above_le_beneath small large before).trans covered'.1)
  refine lt_of_le_of_ne order ?_
  rintro rfl
  exact not_covered_twice small large before covered covered'

theorem same_or_before (first second : Binary) : first = second ∨ first.Before second ∨ second.Before first := by
  unfold Before
  cases first
  cases second
  grind

/-- A number rounds to one magnitude only. -/
theorem covers_unique (one : first.Canonical) (other : second.Canonical) {number : ℚ}
    (covered : first.Covers number) (again : second.Covers number) : first = second := by
  rcases same_or_before first second with same | before | before
  · exact same
  · exact absurd again (not_covered_twice one other before covered)
  · exact absurd covered (not_covered_twice other one before again)

end Neighbours
end Binary

/-! ### Doubles -/

namespace Number
variable {first second number : Number} {negative : Bool} {magnitude : Binary}

/-- What the fields of an infinity are, -/
private theorem meaning_infinite (infinite : number.meaning = .infinite negative) :
    number.negative = negative ∧ number.exponentField = 2047 ∧ number.fractionField = 0 := by
  unfold meaning at infinite
  split at infinite
  · split at infinite
    · cases infinite
      exact ⟨rfl, ‹_›, ‹_›⟩
    · cases infinite
  · split at infinite <;> cases infinite

/-- and those of a finite double. -/
theorem meaning_finite (finite : number.meaning = .finite negative magnitude) :
    number.negative = negative ∧ number.exponentField ≠ 2047 ∧
      (number.exponentField = 0 ∧ magnitude = ⟨number.fractionField, -1074⟩ ∨
        number.exponentField ≠ 0 ∧
          magnitude = ⟨Binary.leadingBit + number.fractionField, number.exponentField - 1075⟩) := by
  unfold meaning at finite
  split at finite
  · split at finite <;> cases finite
  · split at finite
    · cases finite
      exact ⟨rfl, ‹_›, .inl ⟨‹_›, rfl⟩⟩
    · cases finite
      exact ⟨rfl, ‹_›, .inr ⟨‹_›, rfl⟩⟩

/-- The same magnitude without a sign. -/
def unsigned (number : Number) : Number := ⟨.ofNat (number.bits.toNat % 0x8000000000000000)⟩

theorem bits_unsigned (number : Number) :
    number.unsigned.bits.toNat = number.bits.toNat % 0x8000000000000000 := by
  simp only [unsigned, UInt64.toNat_ofNat']
  omega

@[simp] theorem exponentField_unsigned (number : Number) :
    number.unsigned.exponentField = number.exponentField := by
  simp only [exponentField, bits_unsigned, Binary.leadingBit]
  omega

@[simp] theorem fractionField_unsigned (number : Number) :
    number.unsigned.fractionField = number.fractionField := by
  simp only [fractionField, bits_unsigned, Binary.leadingBit]
  omega

/-- Without a sign a finite double keeps its magnitude. -/
theorem meaning_unsigned (finite : number.meaning = .finite negative magnitude) :
    number.unsigned.meaning = .finite false magnitude := by
  have positive : number.unsigned.negative = false := by
    simp only [Number.negative, bits_unsigned, decide_eq_false_iff_not]
    omega
  obtain ⟨-, ordinary, form⟩ := meaning_finite finite
  rw [meaning, exponentField_unsigned, fractionField_unsigned, positive, if_neg ordinary]
  rcases form with ⟨least, rfl⟩ | ⟨above, rfl⟩
  · rw [if_pos least]
  · rw [if_neg above]

theorem meaning_canonical (finite : number.meaning = .finite negative magnitude) : magnitude.Canonical := by
  have fraction : number.fractionField < Binary.leadingBit := Nat.mod_lt _ (by decide)
  obtain ⟨-, -, ⟨-, rfl⟩ | ⟨normal, rfl⟩⟩ := meaning_finite finite
  · exact ⟨by simp only; omega, Int.le_refl _, fun above => absurd above (Int.lt_irrefl _)⟩
  · exact ⟨by simp only; omega, by simp only; omega, fun _ => Nat.le_add_right ..⟩

/-- The three fields are all of a double. -/
private theorem eq_of_fields (sign : first.negative = second.negative)
    (exponent : first.exponentField = second.exponentField)
    (fraction : first.fractionField = second.fractionField) : first = second := by
  obtain ⟨bits⟩ := first
  obtain ⟨bits'⟩ := second
  have bound := bits.toNat_lt
  have bound' := bits'.toNat_lt
  simp only [Number.negative, exponentField, fractionField, Binary.leadingBit, decide_eq_decide]
    at sign exponent fraction
  have same : bits.toNat = bits'.toNat := by omega
  rw [UInt64.toNat_inj.mp same]

/-- Only NaNs have several bit patterns. -/
theorem eq_of_meaning (same : first.meaning = second.meaning) (real : first.meaning ≠ .nan) :
    first = second := by
  have fraction (number : Number) : number.fractionField < Binary.leadingBit := Nat.mod_lt _ (by decide)
  cases meant : first.meaning with
  | nan => exact absurd meant real
  | infinite negative =>
    obtain ⟨sign, exponent, fraction⟩ := meaning_infinite meant
    obtain ⟨sign', exponent', fraction'⟩ := meaning_infinite (same ▸ meant)
    exact eq_of_fields (sign.trans sign'.symm) (exponent.trans exponent'.symm) (fraction.trans fraction'.symm)
  | finite negative magnitude =>
    obtain ⟨sign, -, form⟩ := meaning_finite meant
    obtain ⟨sign', -, form'⟩ := meaning_finite (same ▸ meant)
    have below := fraction first
    have below' := fraction second
    refine eq_of_fields (sign.trans sign'.symm) ?_ ?_
    all_goals
      rcases form with ⟨field, rfl⟩ | ⟨field, rfl⟩
      all_goals
        rcases form' with ⟨field', again⟩ | ⟨field', again⟩
        all_goals
          rw [Binary.mk.injEq] at again
          omega

end Number
end LoopLang
