import LoopLang.Proofs.ShortestDigits

/-! Which decimal Java prints for a double. Java takes the decimals with the fewest digits that round to the
double, but looks among those of two digits where one digit is enough, and prints the nearest of them, the even
one of two. The search for the shortest decimal never looks for a second digit and takes the upper one of two.
Both agree unless two decimals are equally near, which takes several digits, or a decimal of two digits is nearer
than the only one of one digit. For the latter one last place must be wider than the first digit, which leaves
small multiples of the least double, and these are decided one by one. -/
namespace LoopLang

namespace Java
variable {magnitude : Binary} {first second decimal : Decimal} {length : Nat}

/-- The least number of digits with which a decimal rounds to a magnitude. -/
def FewestDigits (magnitude : Binary) (length : Nat) : Prop :=
  (∃ decimal : Decimal, decimal.HasLength length ∧ magnitude.Covers decimal.value) ∧
    ∀ (decimal : Decimal) (fewer : Nat), decimal.HasLength fewer → magnitude.Covers decimal.value →
      length ≤ fewer

/-- The decimals among which Java chooses: those with the fewest digits that round to the magnitude, but with two
digits where one is enough. A decimal of one digit is among them with a zero as its second digit. -/
def Candidate (magnitude : Binary) (decimal : Decimal) : Prop :=
  magnitude.Covers decimal.value ∧
    ∃ fewest, FewestDigits magnitude fewest ∧ decimal.HasLength (max fewest 2)

/-- Java chooses the candidate nearest to the magnitude, and the one whose last digit is even if two are as
near. -/
structure Chooses (magnitude : Binary) (decimal : Decimal) : Prop where
  candidate : Candidate magnitude decimal
  nearest : ∀ other, Candidate magnitude other →
    magnitude.distance decimal.value ≤ magnitude.distance other.value
  even : ∀ other, Candidate magnitude other → other.value ≠ decimal.value →
    magnitude.distance other.value = magnitude.distance decimal.value → decimal.digits % 2 = 0

/-- The shortest decimal has the fewest digits, -/
theorem fewestDigits_iff (positive : 0 < magnitude.significand) :
    FewestDigits magnitude length ↔ length = magnitude.shortest.figures.length := by
  have own := Decimal.hasLength_figures (Binary.shortest_digits_pos positive)
  constructor
  · rintro ⟨⟨decimal, counted, covered⟩, fewest⟩
    exact le_antisymm (fewest _ _ own magnitude.shortest_covers)
      (Binary.shortest_fewest positive covered counted)
  · rintro rfl
    exact ⟨⟨_, own, magnitude.shortest_covers⟩,
      fun decimal fewer counted covered => Binary.shortest_fewest positive covered counted⟩

/-- which says what the candidates are. -/
theorem candidate_iff (positive : 0 < magnitude.significand) : Candidate magnitude decimal ↔
    magnitude.Covers decimal.value ∧ decimal.HasLength (max magnitude.shortest.figures.length 2) := by
  simp only [Candidate, fewestDigits_iff positive, exists_eq_left]

/-- Of two decimals of one length the one with the greater exponent is greater. -/
private theorem exponent_le_of_le (counted : first.HasLength length)
    (counted' : second.HasLength length)
    (less : first.value ≤ second.value) : first.exponent ≤ second.exponent := by
  by_contra above
  have apart : second.value < first.value := counted'.value_lt.trans_le
    ((zpow_le_zpow_right₀ (by norm_num) (by omega)).trans counted.le_value)
  exact absurd less apart.not_ge

/-- Between two decimals of one length whose last digits are even there is a third one. -/
private theorem exists_between (counted : first.HasLength length)
    (counted' : second.HasLength length)
    (even : first.digits % 2 = 0) (even' : second.digits % 2 = 0) (less : first.value < second.value) :
    ∃ middle : Decimal, middle.HasLength length ∧ first.value < middle.value ∧
      middle.value < second.value := by
  have power : 10 ^ length % 2 = 0 := by
    obtain ⟨more, rfl⟩ : ∃ more, length = more + 1 := ⟨length - 1, by have := counted.pos; omega⟩
    rw [pow_succ]
    omega
  have below := counted.2
  have next : (⟨first.digits + 1, first.exponent⟩ : Decimal).HasLength length :=
    ⟨counted.1.trans (Nat.le_succ _), by simp only; omega⟩
  refine ⟨_, next, Binary.value_lt_value (Nat.lt_succ_self _) first.exponent, ?_⟩
  rcases eq_or_lt_of_le (exponent_le_of_le counted counted' less.le) with same | finer
  · have order : first.digits < second.digits := by
      by_contra above
      have order : second.value ≤ first.value := by
        rw [Decimal.value, Decimal.value, same]
        exact Binary.value_le_value (not_lt.mp above) second.exponent
      exact absurd less order.not_gt
    exact same ▸ Binary.value_lt_value (show first.digits + 1 < second.digits by omega) first.exponent
  · exact next.value_lt.trans_le
      ((zpow_le_zpow_right₀ (by norm_num) (by simp only; omega)).trans counted'.le_value)

/-- Strictly between two numbers that are equally far from a magnitude, everything is nearer. -/
private theorem distance_lt_of_between {low number high : ℚ}
    (same : magnitude.distance high = magnitude.distance low)
    (above : low < number) (below : number < high) : magnitude.distance number < magnitude.distance low := by
  rw [Binary.distance, Binary.distance] at *
  rw [abs_lt]
  rcases abs_cases (low - magnitude.exact) with ⟨size, side⟩ | ⟨size, side⟩
  all_goals
    rcases abs_cases (high - magnitude.exact) with ⟨size', side'⟩ | ⟨size', side'⟩
    all_goals
      rw [size, size'] at same
      rw [size]
      constructor <;> linarith

/-- Two numbers that are equally far from a magnitude have it in their middle. -/
private theorem add_of_distance {low high : ℚ}
    (same : magnitude.distance high = magnitude.distance low)
    (different : low ≠ high) : low + high = 2 * magnitude.exact := by
  rcases abs_eq_abs.mp same with equal | opposite
  · exact absurd (sub_left_injective equal).symm different
  · linarith

/-- Java's choice is one number: were there two, both would have an even last digit, and another candidate would
lie between them. -/
theorem chosen_unique (positive : 0 < magnitude.significand) (chosen : Chooses magnitude first)
    (chosen' : Chooses magnitude second) : first.value = second.value := by
  wlog order : first.value ≤ second.value generalizing first second
  · exact (this chosen' chosen (not_le.mp order).le).symm
  by_contra different
  have same := le_antisymm (chosen'.nearest first chosen.candidate) (chosen.nearest second chosen'.candidate)
  obtain ⟨covered, counted⟩ := (candidate_iff positive).mp chosen.candidate
  obtain ⟨covered', counted'⟩ := (candidate_iff positive).mp chosen'.candidate
  have even := chosen.even second chosen'.candidate (Ne.symm different) same
  have even' := chosen'.even first chosen.candidate different same.symm
  obtain ⟨middle, counted'', above, below⟩ :=
    exists_between counted counted' even even' (lt_of_le_of_ne order different)
  have candidate : Candidate magnitude middle :=
    (candidate_iff positive).mpr ⟨covered.between covered' above.le below.le, counted''⟩
  exact absurd (chosen.nearest middle candidate) (not_le.mpr (distance_lt_of_between same above below))

/-! ### Several digits -/

/-- Two shortest decimals of several digits are equally near to the magnitude, and the last digit of the lower one
is even. -/
def Halfway (magnitude : Binary) : Prop :=
  ∃ (length digits : Nat) (grid : Int), 2 ≤ length ∧ FewestDigits magnitude length ∧
    (⟨digits, grid⟩ : Decimal).HasLength length ∧ (⟨digits + 1, grid⟩ : Decimal).HasLength length ∧
    magnitude.Covers (⟨digits, grid⟩ : Decimal).value ∧
    magnitude.Covers (⟨digits + 1, grid⟩ : Decimal).value ∧ digits % 2 = 0 ∧
    (⟨digits, grid⟩ : Decimal).value + (⟨digits + 1, grid⟩ : Decimal).value = 2 * magnitude.exact

/-- When one digit is not enough, all candidates lie on the grid of the shortest decimal. -/
private theorem candidate_exponent (positive : 0 < magnitude.significand)
    (several : 2 ≤ magnitude.shortest.figures.length) (candidate : Candidate magnitude decimal) :
    decimal.exponent = magnitude.shortest.exponent := by
  obtain ⟨covered, counted⟩ := (candidate_iff positive).mp candidate
  rw [max_eq_left several] at counted
  exact Binary.exponent_of_length positive covered counted several

/-- Where a lower point of this grid is as near as the shortest decimal, it is the one before it: any point between
them would be nearer than both. -/
private theorem succ_of_tie (positive : 0 < magnitude.significand) {digits : Nat}
    (covered : magnitude.Covers (⟨digits, magnitude.shortest.exponent⟩ : Decimal).value)
    (tie : magnitude.distance (⟨digits, magnitude.shortest.exponent⟩ : Decimal).value =
      magnitude.distance magnitude.shortest.value)
    (lower : digits < magnitude.shortest.digits) : digits + 1 = magnitude.shortest.digits := by
  by_contra farther
  obtain ⟨⟨-, nearest⟩, -⟩ := Binary.shortest_nearest positive
  have above := Binary.value_lt_value (Nat.lt_succ_self digits) magnitude.shortest.exponent
  have below : (⟨digits + 1, magnitude.shortest.exponent⟩ : Decimal).value < magnitude.shortest.value :=
    Binary.value_lt_value (show digits + 1 < magnitude.shortest.digits by omega) _
  have between := nearest _ (covered.between magnitude.shortest_covers above.le below.le)
  have nearer := distance_lt_of_between tie.symm above below
  rw [tie] at nearer
  exact absurd between.1 nearer.not_ge

/-- Unless the magnitude is halfway between two shortest decimals, Java chooses the shortest decimal too, -/
theorem shortest_chosen (positive : 0 < magnitude.significand)
    (several : 2 ≤ magnitude.shortest.figures.length) (apart : ¬ Halfway magnitude) :
    Chooses magnitude magnitude.shortest := by
  have own := Decimal.hasLength_figures (Binary.shortest_digits_pos positive)
  obtain ⟨⟨-, nearest⟩, -⟩ := Binary.shortest_nearest positive
  have onGrid {other : Decimal} (candidate : Candidate magnitude other) :
      other.value = (⟨other.digits, magnitude.shortest.exponent⟩ : Decimal).value := by
    rw [← candidate_exponent positive several candidate]
  refine ⟨(candidate_iff positive).mpr ⟨magnitude.shortest_covers, by rwa [max_eq_left several]⟩, ?_, ?_⟩
  · intro other candidate
    have covered := candidate.1
    rw [onGrid candidate] at covered ⊢
    exact (nearest other.digits covered).1
  · intro other candidate different same
    by_contra odd
    obtain ⟨covered, counted⟩ := (candidate_iff positive).mp candidate
    rw [max_eq_left several] at counted
    rw [onGrid candidate] at covered different same
    have lower : other.digits < magnitude.shortest.digits :=
      lt_of_le_of_ne ((nearest other.digits covered).2 same) fun equal => different (by rw [equal])
    have next := succ_of_tie positive covered same lower
    have upper : (⟨other.digits + 1, magnitude.shortest.exponent⟩ : Decimal) = magnitude.shortest := by
      rw [next]
    refine apart ⟨_, other.digits, magnitude.shortest.exponent, several, (fewestDigits_iff positive).mpr rfl,
      counted, upper ▸ own, covered, upper ▸ magnitude.shortest_covers, by omega, ?_⟩
    rw [upper]
    exact add_of_distance same.symm different

/-- and if it is, Java chooses the lower one and the search the upper one. -/
private theorem lower_chosen (positive : 0 < magnitude.significand) (halfway : Halfway magnitude) :
    ∃ decimal, Chooses magnitude decimal ∧ decimal.value ≠ magnitude.shortest.value := by
  obtain ⟨length, digits, grid, several, fewest, counted, counted', covered, covered', even, middle⟩ := halfway
  obtain rfl := (fewestDigits_iff positive).mp fewest
  have candidate : Candidate magnitude ⟨digits, grid⟩ :=
    (candidate_iff positive).mpr ⟨covered, by rwa [max_eq_left several]⟩
  obtain rfl : grid = magnitude.shortest.exponent := candidate_exponent positive several candidate
  have order := Binary.value_lt_value (Nat.lt_succ_self digits) magnitude.shortest.exponent
  have below : (⟨digits, magnitude.shortest.exponent⟩ : Decimal).value ≤ magnitude.exact := by linarith
  have above : magnitude.exact ≤ (⟨digits + 1, magnitude.shortest.exponent⟩ : Decimal).value := by linarith
  have lower := (Binary.distance_of_le below le_rfl).1
  have upper := (Binary.distance_of_ge above le_rfl).1
  refine ⟨_, ⟨candidate, fun other candidate' => ?_, fun _ _ _ _ => even⟩, ?_⟩
  · have onGrid : other.value = (⟨other.digits, magnitude.shortest.exponent⟩ : Decimal).value := by
      rw [← candidate_exponent positive several candidate']
    rw [onGrid]
    rcases Nat.lt_or_ge digits other.digits with more | less
    · have farther := Binary.value_le_value more magnitude.shortest.exponent
      rw [lower, (Binary.distance_of_ge above farther).2]
      linarith
    · have farther := Binary.value_le_value less magnitude.shortest.exponent
      rw [lower, (Binary.distance_of_le below farther).2]
      linarith
  · intro same
    obtain ⟨⟨-, nearest⟩, -⟩ := Binary.shortest_nearest positive
    have least := (nearest (digits + 1) covered').2 (by rw [← same, lower, upper]; linarith)
    have back := Binary.value_le_value least magnitude.shortest.exponent
    exact absurd (same ▸ order) back.not_gt

end Java

/-! ### Points of a grid, decided on its integer scale -/

namespace Binary
variable {value : Binary}

instance (value : Binary) (digits : Nat) (grid : Int) :
    Decidable (value.Covers (⟨digits, grid⟩ : Decimal).value) :=
  decidable_of_iff _ covers_iff.symm

/-- How far a point of the grid is from the value, on the integer scale. -/
def gap (value : Binary) (digits : Nat) (grid : Int) : Nat :=
  ((digits * value.step grid : Nat) - (4 * value.significand * value.quarter grid : Nat) : Int).natAbs

private theorem distance_gap (value : Binary) (digits : Nat) (grid : Int) :
    value.distance (⟨digits, grid⟩ : Decimal).value = value.gap digits grid * value.unit grid := by
  rw [distance, value_unit value, value.exact_unit grid, ← sub_mul, abs_mul, abs_of_pos (value.unit_pos grid), gap,
    Nat.cast_natAbs]
  push_cast
  rfl

private theorem distance_lt_iff {digits more : Nat} {grid : Int} :
    value.distance (⟨digits, grid⟩ : Decimal).value <
    value.distance (⟨more, grid⟩ : Decimal).value ↔ value.gap digits grid < value.gap more grid := by
  rw [distance_gap, distance_gap, mul_lt_mul_iff_left₀ (value.unit_pos grid), Nat.cast_lt]

instance (value : Binary) (digits more : Nat) (grid : Int) :
    Decidable (value.distance (⟨digits, grid⟩ : Decimal).value < value.distance (⟨more, grid⟩ : Decimal).value) :=
  decidable_of_iff _ distance_lt_iff.symm

/-- Numbers that round to one magnitude are no farther apart than its last place, -/
theorem Covers.apart {number more : ℚ} (covered : value.Covers number) (covered' : value.Covers more) :
    |number - more| ≤ 2 ^ value.exponent := by
  have place : (2 : ℚ) ^ value.exponent = 4 * 2 ^ (value.exponent - 2) := by
    rw [zpow_sub₀ (by norm_num)]
    ring
  have few : (value.quartersBelow : ℚ) ≤ 2 := by exact_mod_cast value.quartersBelow_le
  have scale : (0 : ℚ) < 2 ^ (value.exponent - 2) := by positivity
  have width : value.above - value.beneath ≤ 2 ^ value.exponent := by
    rw [above, beneath, place, ← sub_mul, mul_le_mul_iff_left₀ scale]
    linarith
  rw [abs_le]
  constructor <;> linarith [covered.1, covered.2.1, covered'.1, covered'.2.1]

/-- and one is no more than three times the other. -/
theorem Covers.le_three_mul {number more : ℚ} (positive : 0 < value.significand)
    (covered : value.Covers number) (covered' : value.Covers more) : more ≤ 3 * number := by
  have few : (value.quartersBelow : ℚ) ≤ 2 := by exact_mod_cast value.quartersBelow_le
  have some : (1 : ℚ) ≤ value.significand := by exact_mod_cast positive
  have scale : (0 : ℚ) < 2 ^ (value.exponent - 2) := by positivity
  calc more ≤ value.above := covered'.2.1
    _ ≤ 3 * value.beneath := by
      rw [above, beneath, ← mul_assoc, mul_le_mul_iff_left₀ scale]
      linarith
    _ ≤ 3 * number := by linarith [covered.1]

end Binary

namespace Java
variable {magnitude : Binary} {decimal : Decimal}

/-! ### One digit -/

/-- A point of the grid that is two places finer than the shortest decimal. -/
abbrev finer (magnitude : Binary) (point : Nat) : Decimal := ⟨point, magnitude.shortest.exponent - 2⟩

/-- The points of that grid that have two digits and lie near the shortest decimal, if this has one. -/
def twoDigits : List Nat := (List.range' 10 90).flatMap fun digits => [digits, 10 * digits]

/-- The least double as often as it is told. -/
abbrev tiny (multiple : Nat) : Binary := ⟨multiple, -1074⟩

/-- How often the least double goes into those for which one digit is enough and Java finds two digits that are
nearer. -/
def exceptions : List Nat := [1, 2, 10, 12, 14, 16, 18, 20]

/-- What Java chooses where one digit is enough: this digit, or for the exceptions the point below it. -/
def tinyChoice (multiple : Nat) : Nat :=
  let digit := (tiny multiple).shortest.digits
  if multiple ∈ exceptions then if digit = 1 then 99 else 100 * digit - 10 else 100 * digit

/-- Among small multiples of the least double every case is looked at; larger ones have a last place that is too
narrow for a second candidate. -/
theorem tinyChoice_nearest : ∀ multiple ∈ List.range' 1 101, (tiny multiple).shortest.digits < 10 →
    tinyChoice multiple ∈ twoDigits ∧
      (tiny multiple).Covers (finer (tiny multiple) (tinyChoice multiple)).value ∧
      ∀ point ∈ twoDigits, point ≠ tinyChoice multiple →
        (tiny multiple).Covers (finer (tiny multiple) point).value →
        (tiny multiple).distance (finer (tiny multiple) (tinyChoice multiple)).value <
          (tiny multiple).distance (finer (tiny multiple) point).value := by
  decide +kernel

/-- Only for the exceptions this is not the shortest decimal. -/
private theorem tinyChoice_eq_iff {multiple : Nat} (some : 0 < (tiny multiple).shortest.digits) :
    tinyChoice multiple = 100 * (tiny multiple).shortest.digits ↔ multiple ∉ exceptions := by
  unfold tinyChoice
  generalize (tiny multiple).shortest.digits = digit at *
  simp only
  split
  case isTrue exception =>
    refine iff_of_false (fun same => ?_) (not_not_intro exception)
    split at same <;> omega
  case isFalse regular => exact iff_of_true rfl regular

private theorem exceptions_one_digit :
    ∀ multiple ∈ exceptions, (tiny multiple).shortest.digits < 10 := by
  decide +kernel

/-- Every point with two digits is a decimal of two digits, -/
private theorem twoDigits_decimal (magnitude : Binary) {point : Nat} (held : point ∈ twoDigits) :
    ∃ decimal : Decimal, decimal.HasLength 2 ∧ decimal.value = (finer magnitude point).value := by
  obtain ⟨digits, within, held⟩ := List.mem_flatMap.mp held
  rw [List.mem_range'_1] at within
  have counted (exponent : Int) : (⟨digits, exponent⟩ : Decimal).HasLength 2 := ⟨within.1, within.2⟩
  rcases List.mem_pair.mp held with rfl | rfl
  · exact ⟨_, counted _, rfl⟩
  · refine ⟨_, counted (magnitude.shortest.exponent - 1), ?_⟩
    rw [Decimal.value, Decimal.value, show magnitude.shortest.exponent - 1 =
      magnitude.shortest.exponent - 2 + 1 by ring, zpow_add_one₀ (by norm_num)]
    push_cast
    ring

/-- The shortest decimal with two zeros behind it. -/
private theorem shortest_finer (magnitude : Binary) :
    magnitude.shortest.value = (finer magnitude (100 * magnitude.shortest.digits)).value := by
  rw [Decimal.value, Decimal.value, zpow_sub₀ (by norm_num)]
  push_cast
  field_simp

/-- Where the last place of a magnitude is as wide as a hundredth of its shortest decimal, it has few places, -/
private theorem significand_le_of_wide
    (wide : magnitude.shortest.digits * 10 ^ (magnitude.shortest.exponent - 2) ≤ (2 : ℚ) ^ magnitude.exponent) :
    magnitude.significand ≤ 101 := by
  have near := (abs_le.mp (magnitude.covers_self.apart magnitude.shortest_covers)).2
  have scale : (0 : ℚ) < 2 ^ magnitude.exponent := by positivity
  have few : (magnitude.significand : ℚ) ≤ 101 := by
    rw [← mul_le_mul_iff_left₀ scale]
    rw [shortest_finer, Binary.exact, Decimal.value] at near
    push_cast at near
    linarith
  exact_mod_cast few

/-- and a magnitude with few places is a multiple of the least double. -/
private theorem exponent_of_few (known : magnitude.Canonical) (few : magnitude.significand ≤ 101) :
    magnitude.exponent = -1074 := by
  have least := known.least
  by_contra more
  have leads := known.leads (by omega)
  rw [Binary.leadingBit] at leads
  omega

section
variable (positive : 0 < magnitude.significand) (one : magnitude.shortest.figures.length = 1)
include positive one

/-- A candidate is not finer than this grid: it would be too small, -/
private theorem finer_le_exponent (candidate : Candidate magnitude decimal) :
    magnitude.shortest.exponent - 2 ≤ decimal.exponent := by
  obtain ⟨covered, counted⟩ := (candidate_iff positive).mp candidate
  have own := Decimal.hasLength_figures (Binary.shortest_digits_pos positive)
  rw [one] at own counted
  by_contra below
  have small : decimal.value < 10 ^ (magnitude.shortest.exponent - 1) :=
    counted.value_lt.trans_le (zpow_le_zpow_right₀ (by norm_num) (by push_cast; omega))
  have large : 10 * 10 ^ (magnitude.shortest.exponent - 1) ≤ magnitude.shortest.value := by
    rw [← zpow_one_add₀ (by norm_num)]
    exact (zpow_le_zpow_right₀ (by norm_num) (by push_cast; omega)).trans own.le_value
  have close := covered.le_three_mul positive magnitude.shortest_covers
  have scale : (0 : ℚ) < 10 ^ (magnitude.shortest.exponent - 1) := by positivity
  linarith

/-- and it is finer than the shortest decimal: else the power of ten between the two would round to the magnitude. -/
private theorem exponent_lt_shortest (candidate : Candidate magnitude decimal) :
    decimal.exponent < magnitude.shortest.exponent := by
  obtain ⟨covered, counted⟩ := (candidate_iff positive).mp candidate
  have own := Decimal.hasLength_figures (Binary.shortest_digits_pos positive)
  rw [one] at own counted
  by_contra above
  obtain ⟨-, coarsest⟩ := Binary.shortest_nearest positive
  have power : magnitude.Covers (⟨1, magnitude.shortest.exponent + 1⟩ : Decimal).value := by
    rw [Decimal.value, Nat.cast_one, one_mul]
    refine magnitude.shortest_covers.between covered (own.value_lt.le.trans ?_) (le_trans ?_ counted.le_value)
    · exact zpow_le_zpow_right₀ (by norm_num) (by push_cast; omega)
    · exact zpow_le_zpow_right₀ (by norm_num) (by push_cast; omega)
  exact coarsest _ 1 (by omega) power

/-- So where one digit is enough, every candidate is a point with two digits. -/
private theorem candidate_finer (candidate : Candidate magnitude decimal) :
    ∃ point ∈ twoDigits, decimal.value = (finer magnitude point).value := by
  have finest := finer_le_exponent positive one candidate
  have coarser := exponent_lt_shortest positive one candidate
  obtain ⟨-, counted⟩ := (candidate_iff positive).mp candidate
  rw [one] at counted
  have within : decimal.digits ∈ List.range' 10 90 := List.mem_range'_1.mpr counted
  rcases eq_or_ne decimal.exponent (magnitude.shortest.exponent - 2) with place | other
  · exact ⟨decimal.digits, List.mem_flatMap.mpr ⟨_, within, .head _⟩, by rw [finer, ← place]⟩
  · refine ⟨10 * decimal.digits, List.mem_flatMap.mpr ⟨_, within, .tail _ (.head _)⟩, ?_⟩
    have place : decimal.exponent = magnitude.shortest.exponent - 2 + 1 := by omega
    rw [Decimal.value, Decimal.value, place, zpow_add_one₀ (by norm_num)]
    push_cast
    ring

/-- A second candidate is only found near a small multiple of the least double. A point below a hundred is far
below, and the others are multiples of ten. -/
private theorem tiny_of_other (known : magnitude.Canonical) {point : Nat} (held : point ∈ twoDigits)
    (other : point ≠ 100 * magnitude.shortest.digits)
    (covered : magnitude.Covers (finer magnitude point).value) :
    magnitude.exponent = -1074 ∧ magnitude.significand ≤ 101 := by
  have own := Decimal.hasLength_figures (Binary.shortest_digits_pos positive)
  rw [one] at own
  have apart : magnitude.shortest.digits ≤ ((point : Int) - 100 * magnitude.shortest.digits).natAbs := by
    obtain ⟨digits, within, held⟩ := List.mem_flatMap.mp held
    rw [List.mem_range'_1] at within
    have digit := own.2
    rcases List.mem_pair.mp held with rfl | rfl <;> omega
  have wide : (magnitude.shortest.digits : ℚ) * 10 ^ (magnitude.shortest.exponent - 2) ≤
      2 ^ magnitude.exponent := by
    have scale : (0 : ℚ) < 10 ^ (magnitude.shortest.exponent - 2) := by positivity
    refine le_trans ?_ (covered.apart magnitude.shortest_covers)
    rw [shortest_finer, Decimal.value, Decimal.value, ← sub_mul, abs_mul, abs_of_pos scale,
      mul_le_mul_iff_left₀ scale]
    exact_mod_cast (Int.ofNat_le.mpr apart).trans_eq (Int.natCast_natAbs _)
  have few := significand_le_of_wide wide
  exact ⟨exponent_of_few known few, few⟩

/-- Java chooses the point with two digits that is nearer than all others. -/
theorem chooses_of_finer {point : Nat} (held : point ∈ twoDigits)
    (covered : magnitude.Covers (finer magnitude point).value)
    (nearest : ∀ other ∈ twoDigits, other ≠ point → magnitude.Covers (finer magnitude other).value →
      magnitude.distance (finer magnitude point).value < magnitude.distance (finer magnitude other).value) :
    ∃ decimal, Chooses magnitude decimal ∧ decimal.value = (finer magnitude point).value := by
  obtain ⟨decimal, counted, same⟩ := twoDigits_decimal magnitude held
  have farther {other : Decimal} (candidate : Candidate magnitude other) (different : other.value ≠ decimal.value) :
      magnitude.distance decimal.value < magnitude.distance other.value := by
    obtain ⟨point', held', same'⟩ := candidate_finer positive one candidate
    have covered' := candidate.1
    rw [same'] at covered'
    rw [same, same'] at different
    rw [same, same']
    exact nearest point' held' (fun equal => different (equal ▸ rfl)) covered'
  refine ⟨decimal, ⟨(candidate_iff positive).mpr ⟨same ▸ covered, ?_⟩, ?_, ?_⟩, same⟩
  · rwa [one]
  · intro other candidate
    by_cases equal : other.value = decimal.value
    · rw [equal]
    · exact (farther candidate equal).le
  · intro other candidate different tie
    exact absurd tie (farther candidate different).ne'

/-- Where one digit is enough, Java chooses this digit, unless the magnitude is one of the exceptions. Magnitudes
that are not tiny have no other candidate. -/
theorem one_digit_chosen (known : magnitude.Canonical) : ∃ decimal, Chooses magnitude decimal ∧
    (decimal.value = magnitude.shortest.value ↔
      ¬ (magnitude.exponent = -1074 ∧ magnitude.significand ∈ exceptions)) := by
  have some := Binary.shortest_digits_pos positive
  have own := Decimal.hasLength_figures some
  rw [one] at own
  rw [shortest_finer]
  by_cases small : magnitude.exponent = -1074 ∧ magnitude.significand ≤ 101
  · obtain ⟨multiple, exponent⟩ := magnitude
    obtain ⟨rfl, few⟩ := small
    obtain ⟨held, covered, nearest⟩ :=
      tinyChoice_nearest multiple (List.mem_range'_1.mpr ⟨positive, by simp only at few; omega⟩) own.2
    obtain ⟨decimal, chosen, same⟩ := chooses_of_finer positive one held covered nearest
    refine ⟨decimal, chosen, ?_⟩
    rw [same, Binary.value_inj, tinyChoice_eq_iff some]
    simp
  · have held : 100 * magnitude.shortest.digits ∈ twoDigits := by
      refine List.mem_flatMap.mpr ⟨10 * magnitude.shortest.digits, List.mem_range'_1.mpr ?_, ?_⟩
      · have := own.2
        omega
      · simp only [List.mem_cons]
        omega
    obtain ⟨decimal, chosen, same⟩ := chooses_of_finer positive one held
      (shortest_finer magnitude ▸ magnitude.shortest_covers)
      fun other held' different covered' =>
        absurd (tiny_of_other positive one known held' different covered') small
    refine ⟨decimal, chosen, iff_of_true same fun exception => small ⟨exception.1, ?_⟩⟩
    have few : ∀ multiple ∈ exceptions, multiple ≤ 101 := by decide
    exact few _ exception.2

end

/-! ### The choice -/

/-- Java chooses another decimal than the shortest one. For eight of the least doubles one digit is enough, and a
decimal of two digits is nearer; the other doubles lie halfway between two shortest decimals, the lower of which
has an even last digit. -/
def ChoosesOther (magnitude : Binary) : Prop :=
  magnitude.exponent = -1074 ∧ magnitude.significand ∈ exceptions ∨ Halfway magnitude

/-- Java chooses a decimal for every magnitude, and the shortest one exactly if the magnitude is none of these. -/
theorem exists_chosen (positive : 0 < magnitude.significand) (known : magnitude.Canonical) :
    ∃ decimal, Chooses magnitude decimal ∧
      (decimal.value = magnitude.shortest.value ↔ ¬ ChoosesOther magnitude) := by
  have some := (Decimal.hasLength_figures (Binary.shortest_digits_pos positive)).pos
  rcases Nat.lt_or_ge 1 magnitude.shortest.figures.length with several | one
  · have regular : ¬ (magnitude.exponent = -1074 ∧ magnitude.significand ∈ exceptions) := by
      rintro ⟨least, exception⟩
      obtain ⟨multiple, exponent⟩ := magnitude
      obtain rfl : exponent = -1074 := least
      have digit := exceptions_one_digit multiple exception
      have fewer : (Nat.toDigits 10 (tiny multiple).shortest.digits).length ≤ 1 :=
        (Nat.length_toDigits_le_iff (by decide) (by decide)).mpr digit
      exact absurd several fewer.not_gt
    by_cases halfway : Halfway magnitude
    · obtain ⟨decimal, chosen, different⟩ := lower_chosen positive halfway
      exact ⟨decimal, chosen, iff_of_false different fun only => only (.inr halfway)⟩
    · refine ⟨_, shortest_chosen positive several halfway, iff_of_true rfl ?_⟩
      exact fun other => other.elim regular halfway
  · have one : magnitude.shortest.figures.length = 1 := le_antisymm one some
    have apart : ¬ Halfway magnitude := by
      rintro ⟨length, -, -, several, fewest, -⟩
      have := (fewestDigits_iff positive).mp fewest
      omega
    obtain ⟨decimal, chosen, same⟩ := one_digit_chosen positive one known
    exact ⟨decimal, chosen, same.trans (not_congr (or_iff_left apart).symm)⟩

end Java
end LoopLang
