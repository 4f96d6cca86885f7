import LoopLang.Number.Style
import LoopLang.Proofs.Rounding

/-! The shortest decimal is what its name says. On one grid the search takes the point nearest to the magnitude
among those that round to it, because only the two neighbours of the magnitude come into question. Grids
are tried from one whose first step is too large downwards, so the search stops on the coarsest grid that
has such a point. What lies on a coarser grid has fewer digits, since everything that rounds to one
magnitude lies together and no power of ten is passed on the way: no decimal with fewer digits rounds to
the magnitude, and those with as many lie on the same grid. -/
namespace LoopLang

namespace Binary
variable {value : Binary} {grid : Int} {digits : Nat}

/-- The number that a magnitude is. -/
def exact (value : Binary) : ℚ := value.significand * 2 ^ value.exponent

/-- How far a number lies from a magnitude. -/
def distance (value : Binary) (number : ℚ) : ℚ := |number - value.exact|

/-! ### The interval of a magnitude -/

private theorem exact_eq (value : Binary) :
    value.exact = 4 * value.significand * 2 ^ (value.exponent - 2) := by
  rw [exact, zpow_sub₀ (by norm_num)]
  ring

/-- A magnitude is written by its exact digits. -/
private theorem exactDigits_value (value : Binary) :
    (⟨value.exactDigits, value.finest⟩ : Decimal).value = value.exact := by
  have quarter : (value.quarter value.finest : ℚ) ≠ 0 := by
    exact_mod_cast (value.quarter_pos value.finest).ne'
  have whole : (value.exactDigits * value.step value.finest : ℚ) =
      4 * value.significand * value.quarter value.finest := by
    exact_mod_cast value.exactDigits_step
  rw [value_eq value, whole, exact_eq, mul_div_cancel_right₀ _ quarter]

/-- A magnitude rounds to itself. -/
theorem covers_self (value : Binary) : value.Covers value.exact :=
  value.exactDigits_value ▸ value.covers_exact

/-- What lies between two numbers that round to a magnitude rounds to it. -/
theorem Covers.between {low number high : ℚ} (covered : value.Covers low) (covered' : value.Covers high)
    (least : low ≤ number) (most : number ≤ high) : value.Covers number := by
  refine ⟨covered.1.trans least, most.trans covered'.2.1, ?_⟩
  rintro (below | above)
  · exact covered.2.2 (.inl (le_antisymm (least.trans_eq below) covered.1))
  · exact covered'.2.2 (.inr (le_antisymm covered'.2.1 (above.symm.trans_le most)))

/-- Nothing that rounds to a magnitude other than zero is zero. -/
theorem Covers.pos {number : ℚ} (positive : 0 < value.significand) (covered : value.Covers number) :
    0 < number := by
  have few := value.quartersBelow_le
  have apart : (0 : ℚ) < 4 * value.significand - value.quartersBelow := by
    have whole : value.quartersBelow < 4 * value.significand := by omega
    exact sub_pos.mpr (by exact_mod_cast whole)
  exact lt_of_lt_of_le (mul_pos apart (by positivity)) covered.1

/-! ### The search on one grid -/

/-- The number of the last point of a grid that is not above a magnitude. -/
def lastBelow (value : Binary) (grid : Int) : Nat :=
  4 * value.significand * value.quarter grid / value.step grid

/-- What one means on the integer scale of a grid. -/
def unit (value : Binary) (grid : Int) : ℚ := 2 ^ (value.exponent - 2) / value.quarter grid

theorem unit_pos (value : Binary) (grid : Int) : 0 < value.unit grid := by
  have quarter : (0 : ℚ) < value.quarter grid := by exact_mod_cast value.quarter_pos grid
  exact div_pos (by positivity) quarter

theorem value_unit (value : Binary) (digits : Nat) (grid : Int) :
    (⟨digits, grid⟩ : Decimal).value = (digits * value.step grid : Nat) * value.unit grid := by
  rw [value_eq value, unit]
  push_cast
  ring

theorem exact_unit (value : Binary) (grid : Int) :
    value.exact = (4 * value.significand * value.quarter grid : Nat) * value.unit grid := by
  have quarter : (value.quarter grid : ℚ) ≠ 0 := by exact_mod_cast (value.quarter_pos grid).ne'
  rw [exact_eq, unit]
  push_cast
  field_simp

/-- The magnitude lies between two neighbours on a grid, -/
theorem lastBelow_le (value : Binary) (grid : Int) :
    (⟨value.lastBelow grid, grid⟩ : Decimal).value ≤ value.exact := by
  rw [value_unit value, value.exact_unit grid, mul_le_mul_iff_left₀ (value.unit_pos grid)]
  exact_mod_cast Nat.div_mul_le_self ..

private theorem lt_next (value : Binary) (grid : Int) :
    value.exact < (⟨value.lastBelow grid + 1, grid⟩ : Decimal).value := by
  rw [value_unit value, value.exact_unit grid, mul_lt_mul_iff_left₀ (value.unit_pos grid)]
  have divided := Nat.lt_div_mul_add (value.step_pos grid) (a := 4 * value.significand * value.quarter grid)
  rw [← Nat.succ_mul] at divided
  exact_mod_cast divided

/-- On the integer scale of a grid, how far the last point below lies from the magnitude. -/
def past (value : Binary) (grid : Int) : Nat :=
  4 * value.significand * value.quarter grid % value.step grid

theorem lastBelow_past (value : Binary) (grid : Int) :
    value.lastBelow grid * value.step grid + value.past grid =
      4 * value.significand * value.quarter grid :=
  Nat.div_add_mod' ..

private theorem past_lt (value : Binary) (grid : Int) : value.past grid < value.step grid :=
  Nat.mod_lt _ (value.step_pos grid)

/-- The tests of the search say which of the two neighbours round to the magnitude -/
private theorem near_below_iff :
    value.near (value.past grid) (value.quartersBelow * value.quarter grid) = true ↔
    value.Covers (⟨value.lastBelow grid, grid⟩ : Decimal).value := by
  have divided := value.lastBelow_past grid
  have quarter := value.quarter_pos grid
  rw [near_iff, covers_iff, ← divided]
  constructor
  · rintro ⟨close, even⟩
    exact ⟨by omega, by omega, fun halfway => even (by omega)⟩
  · rintro ⟨close, -, even⟩
    exact ⟨by omega, fun halfway => even (by omega)⟩

private theorem near_next_iff :
    value.near (value.step grid - value.past grid) (2 * value.quarter grid) = true ↔
    value.Covers (⟨value.lastBelow grid + 1, grid⟩ : Decimal).value := by
  have divided := value.lastBelow_past grid
  have low := value.below_pos grid
  have less := value.past_lt grid
  rw [near_iff, covers_iff, ← divided, Nat.succ_mul (value.lastBelow grid)]
  constructor
  · rintro ⟨close, even⟩
    exact ⟨by omega, by omega, fun halfway => even (by omega)⟩
  · rintro ⟨-, close, even⟩
    exact ⟨by omega, fun halfway => even (by omega)⟩

/-- and which of them is nearer. -/
private theorem past_iff : 2 * value.past grid < value.step grid ↔ 2 * value.exact <
    (⟨value.lastBelow grid, grid⟩ : Decimal).value + (⟨value.lastBelow grid + 1, grid⟩ : Decimal).value := by
  rw [value_unit value, value_unit value, value.exact_unit grid, ← add_mul, ← mul_assoc,
    mul_lt_mul_iff_left₀ (value.unit_pos grid), ← value.lastBelow_past grid,
    Nat.succ_mul (value.lastBelow grid)]
  norm_cast
  omega

/-- The neighbour below is chosen when it rounds to the magnitude and the other one does not or lies farther
away, and the other one is chosen when it alone is left. -/
private theorem onGrid_eq (value : Binary) (grid : Int) : value.onGrid? grid =
    if value.near (value.past grid) (value.quartersBelow * value.quarter grid) &&
        (!value.near (value.step grid - value.past grid) (2 * value.quarter grid) ||
          decide (2 * value.past grid < value.step grid)) then some (value.lastBelow grid)
    else if value.near (value.step grid - value.past grid) (2 * value.quarter grid) then
      some (value.lastBelow grid + 1)
    else none := rfl

/-- Points up to the last one below a magnitude, and points from the next one on. -/
theorem value_le_value {digits more : Nat} (le : digits ≤ more) (grid : Int) :
    (⟨digits, grid⟩ : Decimal).value ≤ (⟨more, grid⟩ : Decimal).value := by
  have count : (digits : ℚ) ≤ more := by exact_mod_cast le
  exact mul_le_mul_of_nonneg_right count (by positivity)

/-- Where a grid has a point that rounds to a magnitude, one of the two neighbours does so. -/
private theorem neighbour_covered (covered : value.Covers (⟨digits, grid⟩ : Decimal).value) :
    digits ≤ value.lastBelow grid ∧ value.Covers (⟨value.lastBelow grid, grid⟩ : Decimal).value ∨
      value.lastBelow grid < digits ∧ value.Covers (⟨value.lastBelow grid + 1, grid⟩ : Decimal).value := by
  rcases Nat.lt_or_ge (value.lastBelow grid) digits with above | below
  · exact .inr ⟨above, value.covers_self.between covered (value.lt_next grid).le (value_le_value above grid)⟩
  · exact .inl ⟨below, covered.between value.covers_self (value_le_value below grid) (value.lastBelow_le grid)⟩

/-- A grid of which nothing is chosen has no point that rounds to the magnitude. -/
private theorem not_covers_of_onGrid (nothing : value.onGrid? grid = none) (digits : Nat) :
    ¬ value.Covers (⟨digits, grid⟩ : Decimal).value := by
  rw [onGrid_eq] at nothing
  intro covered
  rcases neighbour_covered covered with ⟨-, below⟩ | ⟨-, next⟩
  · rw [near_below_iff.mpr below] at nothing
    split at nothing <;> simp_all
  · rw [near_next_iff.mpr next] at nothing
    split at nothing <;> simp_all

/-- Among the points of a grid that round to a magnitude, the given one is nearest to it; if another one is
as near, it is the upper of the two. -/
def NearestOnGrid (value : Binary) (chosen : Decimal) : Prop :=
  value.Covers chosen.value ∧ ∀ digits, value.Covers (⟨digits, chosen.exponent⟩ : Decimal).value →
    value.distance chosen.value ≤ value.distance (⟨digits, chosen.exponent⟩ : Decimal).value ∧
      (value.distance (⟨digits, chosen.exponent⟩ : Decimal).value = value.distance chosen.value →
        digits ≤ chosen.digits)

/-- Farther away on the same side. -/
theorem distance_of_le {near far : ℚ} (side : near ≤ value.exact) (farther : far ≤ near) :
    value.distance near = value.exact - near ∧ value.distance far = value.exact - far := by
  rw [distance, distance, abs_of_nonpos (sub_nonpos.mpr side),
    abs_of_nonpos (sub_nonpos.mpr (farther.trans side)), neg_sub, neg_sub]
  exact ⟨rfl, rfl⟩

theorem distance_of_ge {near far : ℚ} (side : value.exact ≤ near) (farther : near ≤ far) :
    value.distance near = near - value.exact ∧ value.distance far = far - value.exact := by
  rw [distance, distance, abs_of_nonneg (sub_nonneg.mpr side), abs_of_nonneg (sub_nonneg.mpr (side.trans farther))]
  exact ⟨rfl, rfl⟩

theorem value_lt_value {digits more : Nat} (lt : digits < more) (grid : Int) :
    (⟨digits, grid⟩ : Decimal).value < (⟨more, grid⟩ : Decimal).value := by
  have count : (digits : ℚ) < more := by exact_mod_cast lt
  exact mul_lt_mul_of_pos_right count (by positivity)

theorem value_inj {digits more : Nat} : (⟨digits, grid⟩ : Decimal).value = (⟨more, grid⟩ : Decimal).value ↔
    digits = more := by
  have scale : (10 : ℚ) ^ grid ≠ 0 := by positivity
  rw [Decimal.value, Decimal.value, mul_left_inj' scale, Nat.cast_inj]

/-- The neighbour below is nearest unless the other one is, -/
theorem nearest_below (covered : value.Covers (⟨value.lastBelow grid, grid⟩ : Decimal).value)
    (nearer : value.Covers (⟨value.lastBelow grid + 1, grid⟩ : Decimal).value →
      2 * value.exact < (⟨value.lastBelow grid, grid⟩ : Decimal).value +
        (⟨value.lastBelow grid + 1, grid⟩ : Decimal).value) :
    value.NearestOnGrid ⟨value.lastBelow grid, grid⟩ := by
  have below := value.lastBelow_le grid
  have next := (value.lt_next grid).le
  refine ⟨covered, fun digits covered' => ?_⟩
  rcases neighbour_covered covered' with ⟨less, -⟩ | ⟨more, reaches⟩
  · have farther := value_le_value less grid
    obtain ⟨near, far⟩ := distance_of_le below farther
    rw [near, far]
    exact ⟨by linarith, fun _ => less⟩
  · have farther := value_le_value more grid
    have half := nearer reaches
    rw [(distance_of_le below le_rfl).1, (distance_of_ge next farther).2]
    exact ⟨by linarith, fun same => by linarith⟩

/-- and the neighbour above is nearest unless the one below is. -/
theorem nearest_next (covered : value.Covers (⟨value.lastBelow grid + 1, grid⟩ : Decimal).value)
    (nearer : value.Covers (⟨value.lastBelow grid, grid⟩ : Decimal).value →
      (⟨value.lastBelow grid, grid⟩ : Decimal).value +
        (⟨value.lastBelow grid + 1, grid⟩ : Decimal).value ≤ 2 * value.exact) :
    value.NearestOnGrid ⟨value.lastBelow grid + 1, grid⟩ := by
  have below := value.lastBelow_le grid
  have next := (value.lt_next grid).le
  refine ⟨covered, fun digits covered' => ?_⟩
  rcases neighbour_covered covered' with ⟨less, reaches⟩ | ⟨more, -⟩
  · have farther := value_le_value less grid
    have half := nearer reaches
    rw [(distance_of_ge next le_rfl).1, (distance_of_le below farther).2]
    exact ⟨by linarith, fun _ => Nat.le_succ_of_le less⟩
  · have farther := value_le_value more grid
    obtain ⟨near, far⟩ := distance_of_ge next farther
    rw [near, far]
    refine ⟨by linarith, fun same => ?_⟩
    by_contra above
    have := value_lt_value (Nat.lt_of_not_le above) grid
    linarith

/-- So what is chosen on a grid is the nearest point that rounds to the magnitude. -/
theorem nearest_of_onGrid (chosen : value.onGrid? grid = some digits) :
    value.NearestOnGrid ⟨digits, grid⟩ := by
  have covered := covers_of_onGrid chosen
  rw [onGrid_eq] at chosen
  split at chosen
  case isTrue taken =>
    obtain rfl := Option.some.inj chosen
    refine nearest_below covered fun next => past_iff.mp ?_
    simpa [near_next_iff.mpr next] using (Bool.and_eq_true_iff.mp taken).2
  case isFalse refused =>
    split at chosen
    case isFalse => cases chosen
    case isTrue taken =>
      obtain rfl := Option.some.inj chosen
      refine nearest_next covered fun below => not_lt.mp fun nearer => refused ?_
      simp [near_below_iff.mpr below, past_iff.mpr nearer]

/-- So is the magnitude itself on its finest grid. -/
theorem nearest_exact (value : Binary) : value.NearestOnGrid ⟨value.exactDigits, value.finest⟩ := by
  refine ⟨value.covers_exact, fun other covered => ?_⟩
  have none : value.distance (⟨value.exactDigits, value.finest⟩ : Decimal).value = 0 := by
    rw [distance, exactDigits_value, sub_self, abs_zero]
  rw [none]
  refine ⟨abs_nonneg _, fun same => ?_⟩
  by_contra above
  have := value_lt_value (Nat.lt_of_not_le above) value.finest
  rw [exactDigits_value, ← sub_eq_zero.mp (abs_eq_zero.mp same)] at this
  exact lt_irrefl _ this

/-- The search stops on the coarsest of its grids that has a point which rounds to the magnitude. -/
theorem search_nearest (value : Binary) (count : Nat) : value.NearestOnGrid (value.search count) ∧
    ∀ grid digits, (value.search count).exponent < grid → grid ≤ value.finest + count →
      ¬ value.Covers (⟨digits, grid⟩ : Decimal).value := by
  induction count with
  | zero =>
    refine ⟨value.nearest_exact, fun grid digits coarser within => ?_⟩
    simp only [search] at coarser
    omega
  | succ count finer =>
    rw [search]
    split
    case h_1 digits chosen =>
      refine ⟨nearest_of_onGrid chosen, fun grid digits coarser within => ?_⟩
      simp only at coarser
      omega
    case h_2 nothing =>
      refine ⟨finer.1, fun grid digits coarser within => ?_⟩
      by_cases last : grid = value.finest + (count + 1)
      · exact last ▸ not_covers_of_onGrid nothing digits
      · exact finer.2 grid digits coarser (by omega)

/-! ### The whole search -/

/-- Thirteen powers of two are less than four powers of ten, and ten of them are more than three. -/
private theorem two_zpow_le {width power : Int} (large : 0 ≤ width → 4 * width ≤ 13 * power)
    (small : width < 0 → 3 * width ≤ 10 * power) : (2 : ℚ) ^ width ≤ 10 ^ power := by
  rcases Int.lt_or_le width 0 with negative | positive
  · refine le_of_pow_le_pow_left₀ (n := 10) (by norm_num) (by positivity) ?_
    obtain ⟨places, rfl⟩ : ∃ places : Nat, width = -places := ⟨width.natAbs, by omega⟩
    calc ((2 : ℚ) ^ (-places : Int)) ^ 10 = ((2 ^ 10 : ℚ) ^ places)⁻¹ := by
          rw [zpow_neg, zpow_natCast, inv_pow, ← pow_mul, ← pow_mul, mul_comm]
      _ ≤ ((10 ^ 3 : ℚ) ^ places)⁻¹ := by gcongr; norm_num
      _ = 10 ^ (3 * (-places : Int)) := by
          rw [← pow_mul, ← zpow_natCast, ← zpow_neg]
          push_cast
          ring_nf
      _ ≤ 10 ^ (10 * power) := zpow_le_zpow_right₀ (by norm_num) (small negative)
      _ = ((10 : ℚ) ^ power) ^ 10 := by rw [mul_comm, zpow_mul]; norm_cast
  · refine le_of_pow_le_pow_left₀ (n := 13) (by norm_num) (by positivity) ?_
    obtain ⟨places, rfl⟩ := Int.eq_ofNat_of_zero_le positive
    calc ((2 : ℚ) ^ (places : Int)) ^ 13 = (2 ^ 13 : ℚ) ^ places := by
          rw [zpow_natCast, ← pow_mul, ← pow_mul, mul_comm]
      _ ≤ (10 ^ 4 : ℚ) ^ places := by gcongr; norm_num
      _ = 10 ^ (4 * (places : Int)) := by
          rw [← pow_mul, ← zpow_natCast]
          push_cast
          rfl
      _ ≤ 10 ^ (13 * power) := zpow_le_zpow_right₀ (by norm_num) (large positive)
      _ = ((10 : ℚ) ^ power) ^ 13 := by rw [mul_comm, zpow_mul]; norm_cast

/-- The first step of the coarsest grid lies above everything that rounds to a magnitude. -/
private theorem above_lt_coarsest (value : Binary) : value.above < 10 ^ value.coarsest := by
  have bits := Nat.lt_log2_self (n := value.significand)
  have width : (2 : ℚ) ^ ((Nat.log2 value.significand : Int) + 1 + value.exponent) ≤ 10 ^ value.coarsest := by
    apply two_zpow_le
    all_goals
      intro side
      unfold coarsest
      simp only
      split <;> omega
  refine lt_of_lt_of_le ?_ width
  have count : (4 * value.significand + 2 : ℚ) < 2 ^ (Nat.log2 value.significand + 1 + 2) := by
    rw [pow_add]
    exact_mod_cast (by omega : 4 * value.significand + 2 < 2 ^ (Nat.log2 value.significand + 1) * 2 ^ 2)
  calc value.above < 2 ^ (Nat.log2 value.significand + 1 + 2) * 2 ^ (value.exponent - 2) :=
        mul_lt_mul_of_pos_right count (by positivity)
    _ = 2 ^ ((Nat.log2 value.significand : Int) + 1 + value.exponent) := by
        rw [← zpow_natCast, ← zpow_add₀ (by norm_num)]
        push_cast
        ring_nf

/-- So no coarser grid has a point that rounds to it. -/
private theorem not_covers_coarse (positive : 0 < value.significand)
    (coarse : value.coarsest ≤ grid) (digits : Nat) :
    ¬ value.Covers (⟨digits, grid⟩ : Decimal).value := by
  intro covered
  have some : 1 ≤ digits := by
    by_contra none
    obtain rfl : digits = 0 := by omega
    have := covered.pos positive
    simp [Decimal.value] at this
  have reach : (10 : ℚ) ^ value.coarsest ≤ (⟨digits, grid⟩ : Decimal).value :=
    calc (10 : ℚ) ^ value.coarsest ≤ 10 ^ grid := zpow_le_zpow_right₀ (by norm_num) coarse
      _ = (⟨1, grid⟩ : Decimal).value := by simp [Decimal.value]
      _ ≤ (⟨digits, grid⟩ : Decimal).value := value_le_value some grid
  exact absurd (reach.trans covered.2.1) (not_le.mpr value.above_lt_coarsest)

/-- The shortest decimal of a magnitude lies on the coarsest of all grids that have a point which rounds to it,
and is the nearest one there. -/
theorem shortest_nearest (positive : 0 < value.significand) : value.NearestOnGrid value.shortest ∧
    ∀ grid digits, value.shortest.exponent < grid → ¬ value.Covers (⟨digits, grid⟩ : Decimal).value := by
  rw [shortest, if_neg positive.ne']
  obtain ⟨nearest, coarsest⟩ := value.search_nearest (value.coarsest - value.finest).toNat
  refine ⟨nearest, fun grid digits coarser => ?_⟩
  by_cases tried : grid ≤ value.finest + (value.coarsest - value.finest).toNat
  · exact coarsest grid digits coarser tried
  · exact not_covers_coarse positive (by omega) digits

end Binary

/-! ### Counting digits -/

namespace Decimal
variable {decimal : Decimal} {length : Nat}

/-- A decimal is written with so many digits, the first of which is not zero. -/
def HasLength (decimal : Decimal) (length : Nat) : Prop :=
  10 ^ (length - 1) ≤ decimal.digits ∧ decimal.digits < 10 ^ length

theorem HasLength.pos (counted : decimal.HasLength length) : 0 < length := by
  rcases Nat.eq_zero_or_pos length with rfl | positive
  · exact absurd (counted.1.trans_lt counted.2) (lt_irrefl _)
  · exact positive

/-- The number of figures of a decimal is its length. -/
theorem hasLength_figures (positive : 0 < decimal.digits) : decimal.HasLength decimal.figures.length := by
  constructor
  · rcases Nat.lt_or_ge 1 decimal.figures.length with several | one
    · have more : ¬ (Nat.toDigits 10 decimal.digits).length ≤ decimal.figures.length - 1 := by
        change ¬ decimal.figures.length ≤ _
        omega
      rw [Nat.length_toDigits_le_iff (by decide) (by omega)] at more
      exact not_lt.mp more
    · rw [Nat.sub_eq_zero_of_le one]
      exact positive
  · exact (Nat.length_toDigits_le_iff (by decide) Nat.length_toDigits_pos).mp (le_refl decimal.figures.length)

/-- The length and the exponent bound the number. -/
theorem HasLength.le_value (counted : decimal.HasLength length) :
    (10 : ℚ) ^ (length - 1 + decimal.exponent : Int) ≤ decimal.value := by
  have first : ((10 ^ (length - 1) : Nat) : ℚ) ≤ decimal.digits := by exact_mod_cast counted.1
  have positive := counted.pos
  rw [zpow_add₀ (by norm_num), show (length - 1 : Int) = (length - 1 : Nat) by omega, zpow_natCast, value]
  push_cast at first
  gcongr

theorem HasLength.value_lt (counted : decimal.HasLength length) :
    decimal.value < (10 : ℚ) ^ (length + decimal.exponent : Int) := by
  have last : (decimal.digits : ℚ) < ((10 ^ length : Nat) : ℚ) := by exact_mod_cast counted.2
  rw [zpow_add₀ (by norm_num), zpow_natCast, value]
  push_cast at last
  gcongr

end Decimal

namespace Binary
variable {value : Binary} {decimal : Decimal} {length : Nat}

theorem shortest_digits_pos (positive : 0 < value.significand) : 0 < value.shortest.digits := by
  have covered := value.shortest_covers.pos positive
  rw [Decimal.value] at covered
  rcases Nat.eq_zero_or_pos value.shortest.digits with none | some
  · simp [none] at covered
  · exact some

/-- The shortest decimal ends in a digit other than zero, since otherwise it would lie on a coarser grid. -/
theorem shortest_last_digit (positive : 0 < value.significand) : value.shortest.digits % 10 ≠ 0 := by
  intro zero
  obtain ⟨digits, tens⟩ := Nat.dvd_of_mod_eq_zero zero
  have same : (⟨digits, value.shortest.exponent + 1⟩ : Decimal).value = value.shortest.value := by
    rw [Decimal.value, Decimal.value, tens, zpow_add_one₀ (by norm_num)]
    push_cast
    ring
  exact (shortest_nearest positive).2 _ digits (lt_add_one _) (same ▸ value.shortest_covers)

/-- A power of ten lies between a decimal of several digits and any number below that power, so that one of them
does not round to the same magnitude as the shortest decimal. -/
theorem shortest_leads (positive : 0 < value.significand) (covered : value.Covers decimal.value)
    (counted : decimal.HasLength length) : decimal.exponent ≤ value.shortest.exponent ∧
      (2 ≤ value.shortest.figures.length →
        value.shortest.figures.length - 1 + value.shortest.exponent < length + decimal.exponent) := by
  obtain ⟨-, coarsest⟩ := shortest_nearest positive
  refine ⟨not_lt.mp fun coarser => coarsest _ decimal.digits coarser covered, fun several => ?_⟩
  by_contra below
  have own := Decimal.hasLength_figures (shortest_digits_pos positive)
  have power : value.Covers
      (⟨1, value.shortest.figures.length - 1 + value.shortest.exponent⟩ : Decimal).value := by
    rw [Decimal.value, Nat.cast_one, one_mul]
    refine covered.between value.shortest_covers (counted.value_lt.le.trans ?_) own.le_value
    exact zpow_le_zpow_right₀ (by norm_num) (not_lt.mp below)
  exact coarsest _ 1 (by omega) power

/-- No decimal with fewer digits rounds to the magnitude, -/
theorem shortest_fewest (positive : 0 < value.significand) (covered : value.Covers decimal.value)
    (counted : decimal.HasLength length) : value.shortest.figures.length ≤ length := by
  obtain ⟨finer, leads⟩ := shortest_leads positive covered counted
  have some := counted.pos
  by_contra fewer
  have := leads (by omega)
  omega

/-- and those with as many digits lie on the same grid, if they have several. -/
theorem exponent_of_length (positive : 0 < value.significand) (covered : value.Covers decimal.value)
    (counted : decimal.HasLength value.shortest.figures.length) (several : 2 ≤ value.shortest.figures.length) :
    decimal.exponent = value.shortest.exponent := by
  obtain ⟨finer, leads⟩ := shortest_leads positive covered counted
  have := leads several
  omega

end Binary
end LoopLang
