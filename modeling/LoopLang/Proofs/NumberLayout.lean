import LoopLang.Java.Expr
import LoopLang.Printer
import LoopLang.Proofs.NumberText
import LoopLang.Proofs.ShortestDigits

/-! How printed numbers are laid out. The figures of the shortest decimal are placed around a point, with zeros
only where there would be no figure or the place of a figure would be lost; the power of ten of the first figure
decides whether they are placed plainly, and this is the same as comparing the double with a thousandth and with
ten million. Printed texts and literals of Java are then read back as one number, which rounds to the double. -/
namespace LoopLang

/-! ### Figures around a point -/

namespace Numeral
variable {figures whole fraction : List Char} {leading : Int}

/-- Figures around a point, among them no zero that could be left away. -/
structure Tidy (whole fraction : List Char) : Prop where
  before : IsRow whole
  behind : IsRow fraction
  first : whole.head? = some '0' → whole = ['0']
  last : fraction.getLast? = some '0' → fraction = ['0']

/-- Where figures stand around a point, when the first of them counts so many powers of ten. Every number of
figures and zeros is the exact one, and none of them is negative. -/
inductive Placed (figures : List Char) (leading : Int) : List Char → List Char → Prop
  /-- All figures come behind the point, and zeros before them. -/
  | behind (zeros : Nat) : (zeros : Int) = -leading - 1 →
    Placed figures leading ['0'] (List.replicate zeros '0' ++ figures)
  /-- All figures come before the point, and zeros behind them. -/
  | before (zeros : Nat) : (zeros : Int) = leading + 1 - figures.length →
    Placed figures leading (figures ++ List.replicate zeros '0') ['0']
  /-- The point divides the figures. -/
  | around {whole fraction : List Char} : figures = whole ++ fraction → whole ≠ [] → fraction ≠ [] →
    (whole.length : Int) = leading + 1 → Placed figures leading whole fraction

/-- Figures without a zero at either end are placed without a needless zero. -/
theorem Placed.tidy (placed : Placed figures leading whole fraction) (row : IsRow figures)
    (first : figures.head? ≠ some '0') (last : figures.getLast? ≠ some '0') : Tidy whole fraction := by
  have zero : IsRow ['0'] := ⟨by simp, by simp⟩
  have zeros (count : Nat) : ∀ c ∈ List.replicate count '0', c.isDigit = true := by
    intro c held
    rw [List.eq_of_mem_replicate held]
    rfl
  cases placed with
  | behind count counted =>
    refine ⟨zero, ⟨by simp [row.1], List.forall_mem_append.mpr ⟨zeros _, row.2⟩⟩, fun _ => rfl, ?_⟩
    rw [List.getLast?_append_of_ne_nil _ row.1]
    exact fun ends => absurd ends last
  | before count counted =>
    refine ⟨⟨by simp [row.1], List.forall_mem_append.mpr ⟨row.2, zeros _⟩⟩, zero, ?_, fun _ => rfl⟩
    rw [List.head?_append_of_ne_nil _ row.1]
    exact fun begins => absurd begins first
  | around split some some' counted =>
    rw [split, List.head?_append_of_ne_nil _ some] at first
    rw [split, List.getLast?_append_of_ne_nil _ some'] at last
    refine ⟨⟨some, fun c held => row.2 c (by simp [split, held])⟩,
      ⟨some', fun c held => row.2 c (by simp [split, held])⟩, ?_, ?_⟩
    · exact fun begins => absurd begins first
    · exact fun ends => absurd ends last

end Numeral

namespace Decimal
open Numeral
variable {decimal : Decimal}

/-- Only zero is written as a zero among the figures. -/
private theorem digitChar_ne_zero {digit : Nat} (small : digit < 10) (positive : 0 < digit) :
    digit.digitChar ≠ '0' := by
  intro zero
  have code := Nat.toNat_digitChar_of_lt_ten small
  rw [zero] at code
  change 48 = 48 + digit at code
  omega

/-- The first figure of a decimal other than zero is not zero, -/
theorem figures_head (positive : 0 < decimal.digits) : decimal.figures.head? ≠ some '0' := by
  suffices ∀ count, 0 < count → (Nat.toDigits 10 count).head? ≠ some '0' from this _ positive
  intro count
  induction count using Nat.strongRecOn with
  | ind count ih =>
    intro some
    rw [Nat.toDigits_eq_if (by decide)]
    split
    case isTrue small => simpa using digitChar_ne_zero small some
    case isFalse large =>
      rw [List.head?_append_of_ne_nil _ Nat.toDigits_ne_nil]
      exact ih (count / 10) (by omega) (by omega)

/-- and the last one is its last digit. -/
theorem figures_getLast (last : decimal.digits % 10 ≠ 0) : decimal.figures.getLast? ≠ some '0' := by
  rw [figures, Nat.toDigits_eq_if (by decide)]
  split
  case isTrue small => simpa using digitChar_ne_zero small (by omega)
  case isFalse large => simpa using digitChar_ne_zero (Nat.mod_lt decimal.digits (by decide)) (by omega)

/-- In the plain form the figures stand around the point. -/
theorem plain_placed (decimal : Decimal) : ∃ whole fraction,
    decimal.plain = whole ++ '.' :: fraction ∧ Placed decimal.figures decimal.leading whole fraction := by
  have some : 0 < decimal.figures.length := List.length_pos_of_ne_nil decimal.figures_ne_nil
  unfold plain
  extract_lets whole
  split
  case isTrue below => exact ⟨_, _, rfl, .behind _ (by omega)⟩
  case isFalse above =>
    split
    case isTrue padded => exact ⟨_, _, by simp, .before (whole - decimal.figures.length) (by omega)⟩
    case isFalse short =>
      refine ⟨_, _, rfl, .around (List.take_append_drop ..).symm ?_ ?_ ?_⟩
      · simp only [ne_eq, List.take_eq_nil_iff, figures_ne_nil, or_false]
        omega
      · simp only [ne_eq, List.drop_eq_nil_iff]
        omega
      · rw [List.length_take]
        omega

/-- With an exponent there is one figure before the point. -/
theorem scientific_placed (mark : Char) (decimal : Decimal) : ∃ whole fraction,
    decimal.scientific mark true = whole ++ '.' :: fraction ++ mark :: (toString decimal.leading).toList ∧
      Placed decimal.figures 0 whole fraction := by
  obtain ⟨first, others, split⟩ := List.exists_cons_of_ne_nil decimal.figures_ne_nil
  unfold scientific
  rw [split]
  cases others with
  | nil => exact ⟨[first], ['0'], rfl, .before 0 rfl⟩
  | cons second more => exact ⟨[first], second :: more, rfl, .around rfl (by simp) (by simp) rfl⟩

/-- The power of ten of the first digit tells between which powers of ten the number lies. -/
private theorem le_leading_iff (positive : 0 < decimal.digits) (power : Int) :
    power ≤ decimal.leading ↔ (10 : ℚ) ^ power ≤ decimal.value := by
  have counted := hasLength_figures positive
  have place : decimal.leading = decimal.figures.length - 1 + decimal.exponent := by
    rw [leading]
    omega
  constructor
  · intro below
    exact (zpow_le_zpow_right₀ (by norm_num) (below.trans_eq place)).trans counted.le_value
  · intro reaches
    by_contra above
    have less : decimal.value < (10 : ℚ) ^ power :=
      counted.value_lt.trans_le (zpow_le_zpow_right₀ (by norm_num) (by omega))
    exact absurd reaches (not_le.mpr less)

end Decimal

/-! ### Which numbers are written plainly -/

namespace Binary
variable {value boundary : Binary} {power : Int}

/-- The double nearest to a thousandth. -/
def thousandth : Binary := ⟨0x10624DD2F1A9FC, -62⟩

/-- Ten million. -/
def tenMillion : Binary := ⟨0x1312D000000000, -29⟩

/-- The zeros are written plainly, and so is what lies between two doubles. -/
def IsPlain (value : Binary) : Prop :=
  value.significand = 0 ∨ thousandth.exact ≤ value.exact ∧ value.exact < tenMillion.exact

/-- What rounds to different magnitudes is ordered as these are. -/
theorem le_iff_exact_le (known : value.Canonical) (known' : boundary.Canonical) {point number : ℚ}
    (marks : boundary.Covers point) (covered : value.Covers number) (own : value = boundary → point ≤ number) :
    point ≤ number ↔ boundary.exact ≤ value.exact := by
  rcases same_or_before value boundary with same | before | before
  · exact iff_of_true (own same) (same ▸ le_rfl)
  · have less := covered_lt known known' before covered marks
    have less' := covered_lt known known' before value.covers_self boundary.covers_self
    exact iff_of_false less.not_ge less'.not_ge
  · have more := covered_lt known' known before marks covered
    have more' := covered_lt known' known before boundary.covers_self value.covers_self
    exact iff_of_true more.le more'.le

/-- Shortest decimals lie on the same side of a power of ten as the doubles themselves lie of the double with
that decimal. -/
private theorem power_le_shortest_iff (known : value.Canonical) (known' : boundary.Canonical)
    (marks : boundary.shortest.value = 10 ^ power) :
    (10 : ℚ) ^ power ≤ value.shortest.value ↔ boundary.exact ≤ value.exact :=
  le_iff_exact_le known known' (marks ▸ boundary.shortest_covers) value.shortest_covers
    fun same => (same ▸ marks).ge

theorem thousandth_canonical : thousandth.Canonical := ⟨by decide, by decide, fun _ => by decide⟩

private theorem tenMillion_canonical :
    tenMillion.Canonical := ⟨by decide, by decide, fun _ => by decide⟩

theorem thousandth_shortest : thousandth.shortest.value = 10 ^ (-3 : Int) := by
  rw [show thousandth.shortest = ⟨1, -3⟩ by decide +kernel, Decimal.value]
  norm_num

private theorem tenMillion_shortest : tenMillion.shortest.value = 10 ^ (7 : Int) := by
  rw [show tenMillion.shortest = ⟨1, 7⟩ by decide +kernel, Decimal.value]
  norm_num

/-- The two ways to tell which numbers are written plainly agree on every double. -/
theorem isPlain_iff (known : value.Canonical) :
    value.IsPlain ↔ -3 ≤ value.shortest.leading ∧ value.shortest.leading ≤ 6 := by
  rcases Nat.eq_zero_or_pos value.significand with zero | positive
  · have digits : value.shortest = ⟨0, 0⟩ := by rw [shortest, if_pos zero]
    have first : (⟨0, 0⟩ : Decimal).leading = 0 := rfl
    simp [IsPlain, zero, digits, first]
  · have some := shortest_digits_pos positive
    have least : -3 ≤ value.shortest.leading ↔ thousandth.exact ≤ value.exact :=
      (Decimal.le_leading_iff some _).trans
        (power_le_shortest_iff known thousandth_canonical thousandth_shortest)
    have most : 7 ≤ value.shortest.leading ↔ tenMillion.exact ≤ value.exact :=
      (Decimal.le_leading_iff some _).trans
        (power_le_shortest_iff known tenMillion_canonical tenMillion_shortest)
    rw [IsPlain, ← least, ← not_le, ← most]
    omega

end Binary

/-! ### Texts of doubles -/

open Numeral

/-- The sign in front of a text. -/
def Numeral.sign (negative : Bool) : List Char := if negative then ['-'] else []

/-- The text of a magnitude without its sign. Figures and exponent are those of its shortest decimal; they are
written plainly or with the power of ten of the first figure. -/
inductive Printer.LaysOut (magnitude : Binary) : List Char → Prop
  | plain {whole fraction : List Char} :
    -3 ≤ magnitude.shortest.leading ∧ magnitude.shortest.leading ≤ 6 →
    Numeral.Placed magnitude.shortest.figures magnitude.shortest.leading whole fraction →
    Numeral.Tidy whole fraction → LaysOut magnitude (whole ++ '.' :: fraction)
  | scientific {whole fraction : List Char} :
    ¬ (-3 ≤ magnitude.shortest.leading ∧ magnitude.shortest.leading ≤ 6) →
    Numeral.Placed magnitude.shortest.figures 0 whole fraction → Numeral.Tidy whole fraction →
    LaysOut magnitude
      (whole ++ '.' :: fraction ++ 'E' :: (toString magnitude.shortest.leading).toList)

/-- The zeros are laid out like all other numbers. -/
theorem Printer.zero_laysOut {magnitude : Binary} (zero : magnitude.shortest = ⟨0, 0⟩) :
    Printer.LaysOut magnitude ['0', '.', '0'] := by
  have row : IsRow ['0'] := ⟨by simp, by simp⟩
  have places : Placed magnitude.shortest.figures magnitude.shortest.leading ['0'] ['0'] := by
    rw [zero]
    exact .before 0 rfl
  exact .plain (by rw [zero]; decide) places ⟨row, row, fun _ => rfl, fun _ => rfl⟩

theorem Printer.zero_digits {magnitude : Binary} (none : magnitude.significand = 0) :
    Printer.numberStyle.digits magnitude = ['0', '.', '0'] := by
  rw [Number.Style.digits, Binary.shortest, if_pos none]
  rfl

/-- The printer lays out every magnitude in this way. -/
theorem Printer.digits_laysOut (magnitude : Binary) :
    Printer.LaysOut magnitude (Printer.numberStyle.digits magnitude) := by
  rcases Nat.eq_zero_or_pos magnitude.significand with none | some
  · rw [zero_digits none]
    exact zero_laysOut (by rw [Binary.shortest, if_pos none])
  · have row : IsRow magnitude.shortest.figures := IsRow.toDigits _
    have first := magnitude.shortest.figures_head (Binary.shortest_digits_pos some)
    have last := magnitude.shortest.figures_getLast (Binary.shortest_last_digit some)
    unfold Number.Style.digits
    extract_lets decimal
    split
    case isTrue within =>
      obtain ⟨whole, fraction, text, placed⟩ := decimal.plain_placed
      exact text ▸ .plain within placed (placed.tidy row first last)
    case isFalse outside =>
      obtain ⟨whole, fraction, text, placed⟩ := decimal.scientific_placed 'E'
      exact text ▸ .scientific outside placed (placed.tidy row first last)

theorem Printer.numberStyle_readable : Printer.numberStyle.Readable := ⟨rfl, rfl, rfl, rfl, by decide⟩

theorem Java.numberStyle_readable : Java.numberStyle.Readable := ⟨rfl, rfl, rfl, rfl, by decide⟩

namespace Number

/-- What is written for a finite double is its sign and the digits of its magnitude. -/
theorem Style.write_finite {number : Number} (style : Style) {negative : Bool} {magnitude : Binary}
    (finite : number.meaning = .finite negative magnitude) :
    (number.write style).toList = sign negative ++ style.digits magnitude := by
  rw [write, finite]
  cases negative <;> exact String.toList_ofList

/-- A style that can be read gives the same text to two doubles exactly if these are one, or are both no
number. -/
theorem write_eq_iff_same {style : Style} (readable : style.Readable) {first second : Number} :
    first.write style = second.write style ↔
      first = second ∨ first.meaning = .nan ∧ second.meaning = .nan := by
  rw [write_eq_iff readable]
  constructor
  · intro same
    by_cases none : first.meaning = .nan
    · exact .inr ⟨none, same ▸ none⟩
    · exact .inl (eq_of_meaning same none)
  · rintro (rfl | ⟨none, none'⟩)
    · rfl
    · rw [none, none']

/-- The printed text of a finite double and its literal in Java lose nothing: both are read as the same sign and
the same rational, which rounds to this double and to no other one. -/
theorem texts_lose_nothing (number : Number) :
    (∀ negative magnitude, number.meaning = .finite negative magnitude →
      (∃ value, read? (number.write Printer.numberStyle).toList = some (negative, value) ∧
        read? (Java.literal number).toList = some (negative, value) ∧
        ∀ other : Binary, other.Canonical → (other.Covers value ↔ other = magnitude)) ∧
      (∃ text, (number.write Printer.numberStyle).toList = sign negative ++ text ∧
        Printer.LaysOut magnitude text) ∧
      (magnitude.IsPlain ↔ -3 ≤ magnitude.shortest.leading ∧ magnitude.shortest.leading ≤ 6)) ∧
    ∀ other : Number,
      (number.write Printer.numberStyle = other.write Printer.numberStyle ↔
        number = other ∨ number.meaning = .nan ∧ other.meaning = .nan) ∧
      (Java.literal number = Java.literal other ↔
        number = other ∨ number.meaning = .nan ∧ other.meaning = .nan) := by
  refine ⟨fun negative magnitude finite => ⟨?_, ?_, Binary.isPlain_iff (meaning_canonical finite)⟩,
    fun other => ⟨write_eq_iff_same Printer.numberStyle_readable,
      write_eq_iff_same Java.numberStyle_readable⟩⟩
  · refine ⟨magnitude.shortest.value, read_write rfl finite, read_write rfl finite, fun other known => ?_⟩
    constructor
    · exact fun covered =>
        Binary.covers_unique known (meaning_canonical finite) covered magnitude.shortest_covers
    · rintro rfl
      exact other.shortest_covers
  · exact ⟨_, Style.write_finite _ finite, Printer.digits_laysOut magnitude⟩

/-- A small negative double is printed with a power of ten and written in Java without one, and both texts are read
as one number. -/
theorem small_texts_agree : (⟨0xBF1A36E2EB1C432D⟩ : Number).meaning = .finite true ⟨0x1A36E2EB1C432D, -66⟩ ∧
    ∃ value, read? "-1.0E-4".toList = some (true, value) ∧ read? "-0.0001".toList = some (true, value) := by
  have finite : (⟨0xBF1A36E2EB1C432D⟩ : Number).meaning = .finite true ⟨0x1A36E2EB1C432D, -66⟩ := by
    decide +kernel
  have printed : (⟨0xBF1A36E2EB1C432D⟩ : Number).write Printer.numberStyle = "-1.0E-4" := by decide +kernel
  have literal : Java.literal ⟨0xBF1A36E2EB1C432D⟩ = "-0.0001" := by decide +kernel
  obtain ⟨⟨value, reads, reads', -⟩, -, -⟩ := (texts_lose_nothing ⟨0xBF1A36E2EB1C432D⟩).1 true _ finite
  rw [printed] at reads
  rw [literal] at reads'
  exact ⟨finite, value, reads, reads'⟩

end Number
end LoopLang
