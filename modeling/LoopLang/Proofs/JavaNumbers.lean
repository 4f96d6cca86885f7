import LoopLang.Proofs.JavaChoice
import LoopLang.Proofs.NumberLayout

/-! Which text Java prints for a double: the decimal it chooses, plainly from a thousandth up to ten million and
else with a power of ten, always with figures on both sides of the point and without needless zeros. Such a text
is determined by the number it spells, so Java prints one text for each double. The printer spells the shortest
decimal in the same way, and therefore prints what Java prints exactly where Java chooses the shortest decimal. -/
namespace LoopLang

/-! ### Figures around a point -/

namespace Numeral
variable {first second whole whole' fraction fraction' : List Char}

/-- One more figure on the left. -/
private theorem ofDigitChars_cons_zero (c : Char) (text : List Char) :
    Nat.ofDigitChars 10 (c :: text) 0 =
    10 ^ text.length * (c.toNat - '0'.toNat) + Nat.ofDigitChars 10 text 0 := by
  rw [Nat.ofDigitChars_cons, Nat.ofDigitChars_eq_ofDigitChars_zero]
  simp

/-- A figure counts less than ten, -/
private theorem figure_lt {c : Char} (figure : c.isDigit = true) : c.toNat - '0'.toNat < 10 := by
  have range := Char.isDigit_iff_toNat.mp figure
  change 48 ≤ _ ∧ _ ≤ 57 at range
  change c.toNat - 48 < 10
  omega

/-- so a row of figures is below the power of ten of its length. -/
private theorem ofDigitChars_lt (figures : ∀ c ∈ first, c.isDigit = true) :
    Nat.ofDigitChars 10 first 0 < 10 ^ first.length := by
  induction first with
  | nil => simp
  | cons c text ih =>
    have head := figure_lt (figures c (.head _))
    have rest := ih fun c later => figures c (.tail _ later)
    have scaled : 10 ^ text.length * (c.toNat - '0'.toNat + 1) ≤ 10 ^ text.length * 10 :=
      Nat.mul_le_mul_left _ head
    rw [ofDigitChars_cons_zero, List.length_cons, pow_succ]
    rw [Nat.mul_add, Nat.mul_one] at scaled
    omega

/-- Rows of one length are told apart by what they count. -/
theorem row_unique (figures : ∀ c ∈ first, c.isDigit = true) (figures' : ∀ c ∈ second, c.isDigit = true)
    (long : first.length = second.length)
    (same : Nat.ofDigitChars 10 first 0 = Nat.ofDigitChars 10 second 0) : first = second := by
  induction first generalizing second with
  | nil => exact (List.length_eq_zero_iff.mp long.symm).symm
  | cons c text ih =>
    cases second with
    | nil => cases long
    | cons c' text' =>
      have long : text.length = text'.length := Nat.succ.inj long
      have rest := ofDigitChars_lt fun c later => figures c (.tail _ later)
      have rest' := ofDigitChars_lt fun c later => figures' c (.tail _ later)
      rw [ofDigitChars_cons_zero, ofDigitChars_cons_zero, ← long] at same
      rw [← long] at rest'
      have head : c.toNat - '0'.toNat = c'.toNat - '0'.toNat := by
        have quotient := congrArg (· / 10 ^ text.length) same
        simpa [Nat.mul_add_div, Nat.div_eq_of_lt, rest, rest'] using quotient
      have letters : c = c' := by
        have least := (Char.isDigit_iff_toNat.mp (figures c (.head _))).1
        have least' := (Char.isDigit_iff_toNat.mp (figures' c' (.head _))).1
        exact Char.toNat_inj.mp (by omega)
      rw [head, Nat.add_left_cancel_iff] at same
      rw [letters, ih (fun c later => figures c (.tail _ later)) (fun c later => figures' c (.tail _ later)) long same]

/-- A row that does not begin with a zero reaches the power of ten of its first figure. -/
private theorem le_ofDigitChars (row : IsRow first) (leads : first.head? ≠ some '0') :
    10 ^ (first.length - 1) ≤ Nat.ofDigitChars 10 first 0 := by
  obtain ⟨c, text, rfl⟩ := List.exists_cons_of_ne_nil row.1
  have least := (Char.isDigit_iff_toNat.mp (row.2 c (.head _))).1
  have other : c.toNat ≠ '0'.toNat := fun same => leads (congrArg some (Char.toNat_inj.mp same))
  have some : 1 ≤ c.toNat - '0'.toNat := by omega
  rw [ofDigitChars_cons_zero, List.length_cons, Nat.add_sub_cancel]
  exact (Nat.le_mul_of_pos_right _ some).trans (Nat.le_add_right _ _)

/-- A row that begins with a needless zero is not tidy. Any other row that is longer reaches a power of ten
that the shorter one stays below, -/
private theorem whole_length_le (tidy : Tidy whole fraction) (tidy' : Tidy whole' fraction')
    (same : Nat.ofDigitChars 10 whole 0 = Nat.ofDigitChars 10 whole' 0) : whole.length ≤ whole'.length := by
  by_contra longer
  have some := List.length_pos_of_ne_nil tidy'.before.1
  by_cases zero : whole.head? = '0'
  · rw [tidy.first zero] at longer
    exact longer some
  · have reaches := le_ofDigitChars tidy.before zero
    have below := ofDigitChars_lt tidy'.before.2
    have powers : 10 ^ whole'.length ≤ 10 ^ (whole.length - 1) := Nat.pow_le_pow_right (by decide) (by omega)
    omega

/-- so tidy rows before the point are told apart by what they count. -/
theorem whole_unique (tidy : Tidy whole fraction) (tidy' : Tidy whole' fraction')
    (same : Nat.ofDigitChars 10 whole 0 = Nat.ofDigitChars 10 whole' 0) : whole = whole' :=
  row_unique tidy.before.2 tidy'.before.2
    (le_antisymm (whole_length_le tidy tidy' same) (whole_length_le tidy' tidy same.symm)) same

/-- A row that counts a multiple of ten ends with a zero. -/
private theorem getLast_of_dvd (row : IsRow first) (round : 10 ∣ Nat.ofDigitChars 10 first 0) :
    first.getLast? = some '0' := by
  obtain ⟨c, text, rfl⟩ : ∃ c text, first = text ++ [c] :=
    ⟨_, _, (List.dropLast_append_getLast row.1).symm⟩
  rw [Nat.ofDigitChars_append, Nat.ofDigitChars_cons, Nat.ofDigitChars_nil] at round
  have figure := row.2 c (by simp)
  have least := (Char.isDigit_iff_toNat.mp figure).1
  have below := figure_lt figure
  have zero : c = '0' := Char.toNat_inj.mp (by omega)
  simp [zero]

/-- What is behind the point. -/
def fractional (fraction : List Char) : ℚ := Nat.ofDigitChars 10 fraction 0 / 10 ^ fraction.length

private theorem fractional_lt_one (row : IsRow fraction) : fractional fraction < 1 := by
  rw [fractional, div_lt_one (by positivity)]
  exact_mod_cast ofDigitChars_lt row.2

/-- A row that ends with a needless zero is not tidy either. A longer row for the same value would count a
multiple of ten, -/
private theorem fraction_length_le (tidy : Tidy whole fraction) (tidy' : Tidy whole' fraction')
    (same : fractional fraction = fractional fraction') : fraction.length ≤ fraction'.length := by
  by_contra longer
  obtain ⟨more, long⟩ : ∃ more, fraction.length = more + 1 + fraction'.length :=
    ⟨fraction.length - fraction'.length - 1, by omega⟩
  have multiple : Nat.ofDigitChars 10 fraction 0 = Nat.ofDigitChars 10 fraction' 0 * 10 ^ (more + 1) := by
    rw [fractional, fractional, div_eq_div_iff (by positivity) (by positivity), long, pow_add _ (more + 1),
      ← mul_assoc] at same
    exact_mod_cast mul_right_cancel₀ (by positivity) same
  have ten : 10 ∣ Nat.ofDigitChars 10 fraction 0 :=
    multiple ▸ ((Dvd.intro_left _ (pow_succ 10 more).symm).mul_left _)
  have some := List.length_pos_of_ne_nil tidy'.behind.1
  rw [tidy.last (getLast_of_dvd tidy.behind ten)] at longer
  exact longer some

/-- so tidy rows behind the point are told apart by their number. -/
theorem fraction_unique (tidy : Tidy whole fraction) (tidy' : Tidy whole' fraction')
    (same : fractional fraction = fractional fraction') : fraction = fraction' := by
  have long :=
    le_antisymm (fraction_length_le tidy tidy' same) (fraction_length_le tidy' tidy same.symm)
  rw [fractional, fractional, long, div_left_inj' (by positivity)] at same
  exact row_unique tidy.behind.2 tidy'.behind.2 long (by exact_mod_cast same)

/-- The number of two rows of figures with a point between them. -/
def pointed (whole fraction : List Char) : ℚ := Nat.ofDigitChars 10 whole 0 + fractional fraction

/-- This is how they are read. -/
private theorem mantissa_pointed (row : IsRow whole) (row' : IsRow fraction) :
    mantissa? (whole ++ '.' :: fraction) = some (pointed whole fraction) := by
  rw [mantissa_point row row', pointed, fractional, Nat.ofDigitChars_append, Nat.ofDigitChars_eq_ofDigitChars_zero]
  push_cast
  rw [add_div, mul_div_cancel_left₀ _ (by positivity)]

private theorem fractional_nonneg (fraction : List Char) : 0 ≤ fractional fraction := by
  unfold fractional
  positivity

/-- Of two equal numbers neither has more before the point, -/
private theorem whole_le (row : IsRow fraction')
    (same : pointed whole fraction = pointed whole' fraction') :
    Nat.ofDigitChars 10 whole 0 ≤ Nat.ofDigitChars 10 whole' 0 := by
  have low := fractional_lt_one row
  have high := fractional_nonneg fraction
  rw [pointed, pointed] at same
  have less : (Nat.ofDigitChars 10 whole 0 : ℚ) < Nat.ofDigitChars 10 whole' 0 + 1 := by linarith
  exact Nat.lt_succ_iff.mp (by exact_mod_cast less)

/-- so tidy figures around a point are told apart by their number. -/
private theorem pointed_unique (tidy : Tidy whole fraction) (tidy' : Tidy whole' fraction')
    (same : pointed whole fraction = pointed whole' fraction') : whole = whole' ∧ fraction = fraction' := by
  have before := le_antisymm (whole_le tidy'.behind same) (whole_le tidy.behind same.symm)
  have after : fractional fraction = fractional fraction' := by
    rw [pointed, pointed, before] at same
    exact add_left_cancel same
  exact ⟨whole_unique tidy tidy' before, fraction_unique tidy tidy' after⟩

/-! ### Where the figures of a decimal stand -/

variable {figures : List Char} {leading : Int}

/-- Placed figures count as many powers of ten as it is said of the first of them. -/
theorem Placed.number (placed : Placed figures leading whole fraction) :
    pointed whole fraction = Nat.ofDigitChars 10 figures 0 * 10 ^ (leading + 1 - figures.length) := by
  cases placed with
  | behind zeros counted =>
    have power : leading + 1 - figures.length = -((zeros + figures.length : Nat) : Int) := by
      push_cast
      omega
    rw [power, zpow_neg, zpow_natCast]
    simp [pointed, fractional, Nat.ofDigitChars_cons, Nat.ofDigitChars_append, Nat.ofDigitChars_replicate_zero,
      div_eq_mul_inv]
  | before zeros counted =>
    rw [← counted, zpow_natCast]
    simp [pointed, fractional, Nat.ofDigitChars_cons, Nat.ofDigitChars_append, Nat.ofDigitChars_replicate_zero,
      mul_comm]
  | around split some some' counted =>
    have power : leading + 1 - figures.length = -(fraction.length : Int) := by
      rw [split, List.length_append]
      push_cast
      omega
    rw [power, zpow_neg, zpow_natCast, split, Nat.ofDigitChars_append, Nat.ofDigitChars_eq_ofDigitChars_zero,
      pointed, fractional]
    push_cast
    field_simp

/-- With the power of ten of the first figure apart, this figure stands alone before the point. -/
theorem Placed.single (placed : Placed figures 0 whole fraction) (some : figures ≠ []) :
    ∃ first, whole = [first] ∧ figures.head? = Option.some first := by
  have long := List.length_pos_of_ne_nil some
  cases placed with
  | behind zeros counted => omega
  | before zeros counted =>
    obtain ⟨first, rfl⟩ := List.length_eq_one_iff.mp (show figures.length = 1 by omega)
    obtain rfl : zeros = 0 := by simpa using counted
    exact ⟨first, rfl, rfl⟩
  | around split some some' counted =>
    obtain ⟨first, rfl⟩ := List.length_eq_one_iff.mp (show whole.length = 1 by omega)
    exact ⟨first, rfl, by rw [split]; rfl⟩

end Numeral

/-! ### The text of a decimal -/

namespace Java
open Numeral
variable {magnitude : Binary} {number : Number} {value : ℚ} {text text' : List Char}

/-- Magnitudes from a thousandth up to ten million are printed without a power of ten. -/
def IsPlain (magnitude : Binary) : Prop := 1 / 1000 ≤ magnitude.exact ∧ magnitude.exact < 10000000

/-- How the number that is chosen for a magnitude is spelled: plainly, or with one figure other than zero before
the point and a power of ten. There is always a figure behind the point. -/
inductive Shows (magnitude : Binary) (value : ℚ) : List Char → Prop
  | plain {whole fraction : List Char} : IsPlain magnitude → Tidy whole fraction →
    pointed whole fraction = value → Shows magnitude value (whole ++ '.' :: fraction)
  | scientific {first : Char} {fraction : List Char} {power : Int} : ¬ IsPlain magnitude →
    Tidy [first] fraction → first ≠ '0' → pointed [first] fraction * 10 ^ power = value →
    Shows magnitude value (first :: '.' :: fraction ++ 'E' :: (toString power).toList)

/-- A mantissa lies between one and ten, -/
private theorem mantissa_range {first : Char} {fraction : List Char} (tidy : Tidy [first] fraction)
    (leads : first ≠ '0') : 1 ≤ pointed [first] fraction ∧ pointed [first] fraction < 10 := by
  have least := le_ofDigitChars tidy.before (by simpa using leads)
  have most := ofDigitChars_lt tidy.before.2
  have least : (1 : ℚ) ≤ Nat.ofDigitChars 10 [first] 0 := by exact_mod_cast least
  have most : (Nat.ofDigitChars 10 [first] 0 : ℚ) + 1 ≤ 10 := by exact_mod_cast most
  have low := fractional_nonneg fraction
  have high := fractional_lt_one tidy.behind
  rw [pointed]
  constructor <;> linarith

/-- so its power of ten is determined by the number. -/
private theorem power_le {mantissa mantissa' : ℚ} {power power' : Int} (least : 1 ≤ mantissa)
    (most : mantissa' < 10)
    (same : mantissa * 10 ^ power = mantissa' * 10 ^ power') : power ≤ power' := by
  by_contra above
  have scale : (0 : ℚ) < 10 ^ power' := by positivity
  have apart : mantissa' * 10 ^ power' < mantissa * 10 ^ power := calc
    mantissa' * 10 ^ power' < 10 * 10 ^ power' := (mul_lt_mul_iff_left₀ scale).mpr most
    _ = 10 ^ (power' + 1) := by rw [zpow_add_one₀ (by norm_num), mul_comm]
    _ ≤ 10 ^ power := zpow_le_zpow_right₀ (by norm_num) (by omega)
    _ ≤ mantissa * 10 ^ power := le_mul_of_one_le_left (by positivity) least
  exact apart.ne' same

/-- A number is spelled in one way. -/
theorem spelling_unique (shown : Shows magnitude value text) (shown' : Shows magnitude value text') :
    text = text' := by
  cases shown with
  | plain plainly tidy same =>
    cases shown' with
    | plain plainly' tidy' same' =>
      obtain ⟨rfl, rfl⟩ := pointed_unique tidy tidy' (same.trans same'.symm)
      rfl
    | scientific other => exact absurd plainly other
  | scientific other tidy leads same =>
    cases shown' with
    | plain plainly => exact absurd plainly other
    | scientific other' tidy' leads' same' =>
      obtain ⟨least, most⟩ := mantissa_range tidy leads
      obtain ⟨least', most'⟩ := mantissa_range tidy' leads'
      have equal := same.trans same'.symm
      obtain rfl := le_antisymm (power_le least most' equal) (power_le least' most equal.symm)
      obtain ⟨one, rfl⟩ := pointed_unique tidy tidy' (mul_right_cancel₀ (by positivity) equal)
      obtain rfl : _ = _ := List.singleton_inj.mp one
      rfl

/-- What a text spells is read from it. -/
theorem Shows.reads (shown : Shows magnitude value text) : magnitude? text = some value := by
  cases shown with
  | plain _ tidy same =>
    have figures := tidy.before.point tidy.behind
    rw [magnitude_unmarked fun c held => not_mark_of_figure (figures c held),
      mantissa_pointed tidy.before tidy.behind, same]
  | scientific _ tidy _ same =>
    have figures := tidy.before.point tidy.behind
    exact (magnitude_marked rfl (fun c held => not_mark_of_figure (figures c held))
      (mantissa_pointed tidy.before tidy.behind)).trans (congrArg some same)

section
variable {decimal : Decimal} (positive : 0 < decimal.digits) (last : decimal.digits % 10 ≠ 0)
include positive last

/-- Both forms of a decimal without needless digits spell its value. -/
theorem shows_plain (plainly : IsPlain magnitude) : Shows magnitude decimal.value decimal.plain := by
  obtain ⟨whole, fraction, text, placed⟩ := decimal.plain_placed
  have tidy := placed.tidy (IsRow.toDigits _) (decimal.figures_head positive) (decimal.figures_getLast last)
  rw [text]
  refine .plain plainly tidy ?_
  rw [placed.number, Decimal.ofDigitChars_figures, Decimal.value, Decimal.leading]
  congr 2
  omega

theorem shows_scientific (other : ¬ IsPlain magnitude) :
    Shows magnitude decimal.value (decimal.scientific 'E' true) := by
  obtain ⟨whole, fraction, text, placed⟩ := decimal.scientific_placed 'E'
  have head := decimal.figures_head positive
  have tidy := placed.tidy (IsRow.toDigits _) head (decimal.figures_getLast last)
  have same := placed.number
  obtain ⟨first, rfl, leads⟩ := placed.single decimal.figures_ne_nil
  rw [text]
  refine .scientific other tidy (fun zero => head (zero ▸ leads)) ?_
  rw [same, Decimal.ofDigitChars_figures, Decimal.value, Decimal.leading, mul_assoc, ← zpow_add₀ (by norm_num)]
  congr 2
  omega

end

/-- Every decimal has a value that is written without needless digits, -/
private theorem exists_without_zeros (digits : Nat) (exponent : Int) (positive : 0 < digits) :
    ∃ decimal : Decimal, 0 < decimal.digits ∧ decimal.digits % 10 ≠ 0 ∧
      decimal.value = (⟨digits, exponent⟩ : Decimal).value := by
  induction digits using Nat.strongRecOn generalizing exponent with
  | ind digits ih =>
    by_cases last : digits % 10 = 0
    · obtain ⟨decimal, some, short, same⟩ := ih (digits / 10) (by omega) (exponent + 1) (by omega)
      refine ⟨decimal, some, short, same.trans ?_⟩
      have split : (digits : ℚ) = 10 * (digits / 10 : Nat) := by exact_mod_cast (by omega : digits = _)
      rw [Decimal.value, Decimal.value, zpow_add_one₀ (by norm_num), split]
      ring
    · exact ⟨_, positive, last, rfl⟩

/-- so every decimal can be spelled. -/
theorem exists_spelling (magnitude : Binary) {decimal : Decimal} (positive : 0 < decimal.digits) :
    ∃ text, Shows magnitude decimal.value text := by
  obtain ⟨short, some, last, same⟩ := exists_without_zeros decimal.digits decimal.exponent positive
  rw [← same]
  by_cases plainly : IsPlain magnitude
  · exact ⟨_, shows_plain some last plainly⟩
  · exact ⟨_, shows_scientific some last plainly⟩

/-- Both ways to tell which magnitudes are printed plainly agree. A thousandth is no double, and the nearest
one lies above it. -/
private theorem isPlain_iff (known : magnitude.Canonical) (positive : 0 < magnitude.significand) :
    IsPlain magnitude ↔ -3 ≤ magnitude.shortest.leading ∧ magnitude.shortest.leading ≤ 6 := by
  have marks : Binary.thousandth.Covers (1 / 1000) := by
    have covered := Binary.thousandth.shortest_covers
    rw [Binary.thousandth_shortest] at covered
    exact (show (10 : ℚ) ^ (-3 : Int) = 1 / 1000 by norm_num) ▸ covered
  have thousandth : 1 / 1000 ≤ Binary.thousandth.exact := by
    norm_num [Binary.exact, Binary.thousandth]
  have least : 1 / 1000 ≤ magnitude.exact ↔ Binary.thousandth.exact ≤ magnitude.exact :=
    Binary.le_iff_exact_le known Binary.thousandth_canonical marks magnitude.covers_self fun same => same ▸ thousandth
  have most : Binary.tenMillion.exact = 10000000 := by
    norm_num [Binary.exact, Binary.tenMillion]
  rw [← Binary.isPlain_iff known, Binary.IsPlain, IsPlain, least, most, or_iff_right positive.ne']

/-! ### The text of a double -/

/-- The text of a magnitude. -/
inductive PrintsMagnitude (magnitude : Binary) : List Char → Prop
  | zero : magnitude.significand = 0 → PrintsMagnitude magnitude ['0', '.', '0']
  | positive {decimal : Decimal} {text : List Char} : 0 < magnitude.significand → Chooses magnitude decimal →
    Shows magnitude decimal.value text → PrintsMagnitude magnitude text

/-- The text Java prints for a double. -/
def Prints (number : Number) (printed : String) : Prop :=
  match number.meaning with
  | .nan => printed = "NaN"
  | .infinite false => printed = "Infinity"
  | .infinite true => printed = "-Infinity"
  | .finite negative magnitude => ∃ text, PrintsMagnitude magnitude text ∧ printed.toList = sign negative ++ text

private theorem PrintsMagnitude.shown (prints : PrintsMagnitude magnitude text)
    (positive : 0 < magnitude.significand) :
    ∃ decimal, Chooses magnitude decimal ∧ Shows magnitude decimal.value text := by
  cases prints with
  | zero none => exact absurd none positive.ne'
  | positive _ chosen shown => exact ⟨_, chosen, shown⟩

/-- Every magnitude has one text, -/
theorem printsMagnitude_unique (prints : PrintsMagnitude magnitude text) (prints' : PrintsMagnitude magnitude text') :
    text = text' := by
  cases prints with
  | zero none =>
    cases prints' with
    | zero none' => rfl
    | positive some => exact absurd none some.ne'
  | positive some chosen shown =>
    cases prints' with
    | zero none => exact absurd none some.ne'
    | positive some' chosen' shown' =>
      rw [chosen_unique some chosen chosen'] at shown
      exact spelling_unique shown shown'

/-- and it has one. -/
theorem exists_printsMagnitude (known : magnitude.Canonical) : ∃ text, PrintsMagnitude magnitude text := by
  rcases Nat.eq_zero_or_pos magnitude.significand with none | some
  · exact ⟨_, .zero none⟩
  · obtain ⟨decimal, chosen, -⟩ := exists_chosen some known
    obtain ⟨-, counted⟩ := (candidate_iff some).mp chosen.candidate
    obtain ⟨text, shown⟩ := exists_spelling magnitude (lt_of_lt_of_le (by positivity) counted.1)
    exact ⟨text, .positive some chosen shown⟩

/-- The digits that are printed spell the shortest decimal. -/
private theorem shows_shortest (known : magnitude.Canonical)
    (positive : 0 < magnitude.significand) :
    Shows magnitude magnitude.shortest.value (Printer.numberStyle.digits magnitude) := by
  have some := Binary.shortest_digits_pos positive
  have last := Binary.shortest_last_digit positive
  unfold Number.Style.digits
  extract_lets decimal
  split
  case isTrue within => exact shows_plain some last ((isPlain_iff known positive).mpr within)
  case isFalse outside =>
    exact shows_scientific some last fun plainly => outside ((isPlain_iff known positive).mp plainly)

/-- Zero is none of the magnitudes for which Java chooses another decimal: one digit is enough for what rounds to
it. -/
private theorem not_choosesOther_zero : ¬ ChoosesOther ⟨0, -1074⟩ := by
  rintro (⟨-, exception⟩ | ⟨length, -, -, several, ⟨-, fewest⟩, -⟩)
  · revert exception
    decide
  · have one := fewest ⟨1, -400⟩ 1 ⟨le_rfl, by decide⟩ (by decide +kernel)
    omega

/-- The text of a magnitude is the printed one unless Java chooses another decimal. -/
private theorem printsMagnitude_digits_iff (known : magnitude.Canonical) :
    PrintsMagnitude magnitude (Printer.numberStyle.digits magnitude) ↔ ¬ ChoosesOther magnitude := by
  rcases Nat.eq_zero_or_pos magnitude.significand with none | some
  · rw [Printer.zero_digits none]
    obtain ⟨significand, exponent⟩ := magnitude
    obtain rfl : significand = 0 := none
    obtain rfl : exponent = -1074 := by
      by_contra other
      exact absurd (known.leads (lt_of_le_of_ne known.least (Ne.symm other))) (Nat.not_succ_le_zero _)
    exact iff_of_true (.zero rfl) not_choosesOther_zero
  · obtain ⟨decimal, chosen, only⟩ := exists_chosen some known
    have shown := shows_shortest known some
    rw [← only]
    constructor
    · intro prints
      obtain ⟨decimal', chosen', shown'⟩ := prints.shown some
      rw [chosen_unique some chosen chosen']
      exact Option.some.inj (shown'.reads.symm.trans shown.reads)
    · intro same
      exact .positive some chosen (same ▸ shown)

/-- Every double has one text, -/
theorem prints_unique {printed printed' : String} (prints : Prints number printed)
    (prints' : Prints number printed') : printed = printed' := by
  unfold Prints at prints prints'
  cases meant : number.meaning with
  | nan =>
    rw [meant] at prints prints'
    exact prints.trans prints'.symm
  | infinite negative =>
    rw [meant] at prints prints'
    cases negative <;> exact prints.trans prints'.symm
  | finite negative magnitude =>
    rw [meant] at prints prints'
    obtain ⟨text, digits, written⟩ := prints
    obtain ⟨text', digits', written'⟩ := prints'
    rw [printsMagnitude_unique digits digits'] at written
    exact String.toList_inj.mp (written.trans written'.symm)

/-- and has one. -/
theorem exists_prints (number : Number) : ∃ printed, Prints number printed := by
  unfold Prints
  cases meant : number.meaning with
  | nan => exact ⟨_, rfl⟩
  | infinite negative => cases negative <;> exact ⟨_, rfl⟩
  | finite negative magnitude =>
    obtain ⟨text, digits⟩ := exists_printsMagnitude (Number.meaning_canonical meant)
    exact ⟨_, text, digits, String.toList_ofList⟩

/-- A finite double is printed as Java prints it exactly if its magnitude is. -/
theorem prints_write_iff {negative : Bool} (finite : number.meaning = .finite negative magnitude) :
    Prints number (number.write Printer.numberStyle) ↔
      PrintsMagnitude magnitude (Printer.numberStyle.digits magnitude) := by
  unfold Prints
  rw [finite]
  simp only [Number.Style.write_finite _ finite, List.append_cancel_left_eq, exists_eq_right']

/-- The least double, spelled with the two digits that Java chooses. -/
private theorem shows_least :
    Shows (tiny 1) (finer (tiny 1) (tinyChoice 1)).value "4.9E-324".toList := by
  have known : (tiny 1).Canonical := ⟨by decide, le_rfl, fun more => absurd more (lt_irrefl _)⟩
  have small : ¬ IsPlain (tiny 1) := (isPlain_iff known Nat.one_pos).not.mpr (by decide +kernel)
  have row (c : Char) (figure : c.isDigit = true) : IsRow [c] := ⟨by simp, by simpa using figure⟩
  have tidy : Tidy ['4'] ['9'] := ⟨row _ rfl, row _ rfl, by decide, by decide⟩
  have value : pointed ['4'] ['9'] * 10 ^ (-326 + 2 : Int) = (⟨490, -326⟩ : Decimal).value := by
    rw [pointed, fractional, show Nat.ofDigitChars 10 ['4'] 0 = 4 by rfl,
      show Nat.ofDigitChars 10 ['9'] 0 = 9 by rfl, zpow_add₀ (by norm_num), Decimal.value]
    generalize (10 : ℚ) ^ (-326 : Int) = scale
    norm_num
    ring
  rw [show finer (tiny 1) (tinyChoice 1) = ⟨490, -326⟩ by decide +kernel]
  exact .scientific small tidy (by decide) value

end Java

/-- Java prints one text for every double, and this is the printed one unless Java chooses another decimal than
the shortest one. -/
theorem Number.printed_as_java_iff (number : Number) : (∃! printed, Java.Prints number printed) ∧
    (Java.Prints number (number.write Printer.numberStyle) ↔
      ¬ ∃ negative magnitude, number.meaning = .finite negative magnitude ∧ Java.ChoosesOther magnitude) := by
  obtain ⟨printed, prints⟩ := Java.exists_prints number
  refine ⟨⟨printed, prints, fun _ prints' => Java.prints_unique prints' prints⟩, ?_⟩
  cases meant : number.meaning with
  | finite negative magnitude =>
    rw [Java.prints_write_iff meant, Java.printsMagnitude_digits_iff (meaning_canonical meant)]
    simp
  | nan => simp [Java.Prints, write, meant, Printer.numberStyle]
  | infinite negative => cases negative <;> simp [Java.Prints, write, meant, Printer.numberStyle]

/-- The least double is printed with one digit, and by Java with two. -/
theorem Number.least_double_differs : (⟨1⟩ : Number).write Printer.numberStyle = "5.0E-324" ∧
    Java.Prints ⟨1⟩ "4.9E-324" ∧ ¬ Java.Prints ⟨1⟩ ((⟨1⟩ : Number).write Printer.numberStyle) := by
  have written : (⟨1⟩ : Number).write Printer.numberStyle = "5.0E-324" := by decide +kernel
  have prints : Java.Prints ⟨1⟩ "4.9E-324" := by
    have positive : 0 < (Java.tiny 1).significand := Nat.one_pos
    have digit : (Java.tiny 1).shortest.figures.length = 1 := by decide +kernel
    have small : (Java.tiny 1).shortest.digits < 10 := by decide +kernel
    obtain ⟨held, covered, nearest⟩ := Java.tinyChoice_nearest 1 (List.mem_range'_1.mpr (by decide)) small
    obtain ⟨decimal, chosen, same⟩ := Java.chooses_of_finer positive digit held covered nearest
    have shown : Java.Shows (Java.tiny 1) decimal.value "4.9E-324".toList := by
      rw [same]
      exact Java.shows_least
    exact ⟨_, .positive positive chosen shown, rfl⟩
  rw [written]
  exact ⟨rfl, prints, fun other => absurd (Java.prints_unique prints other) (by decide)⟩

end LoopLang
