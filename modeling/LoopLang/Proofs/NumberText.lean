import LoopLang.Node.Basic
import LoopLang.Proofs.Literals
import LoopLang.Proofs.Rounding
import Mathlib.Data.List.TakeWhile

/-! Reading numbers back from their texts. A reader takes a sign, figures with or without a point and a power
of ten with or without it, and gives the exact rational; it knows nothing of doubles. What a style writes
for a finite double reads as the shortest decimal of its magnitude, which rounds to that magnitude and
to no other one, so a text tells which double it was written for. -/
namespace LoopLang

/-! ### The reader -/

namespace Numeral

/-- The count that a row of figures stands for. -/
def figures? (text : List Char) : Option Nat :=
  if !text.isEmpty && text.all Char.isDigit then some (Nat.ofDigitChars 10 text 0) else none

/-- A whole number, perhaps with a minus sign. -/
def signed? : List Char → Option Int
  | '-' :: text => (figures? text).map fun (count : Nat) => -(count : Int)
  | text => (figures? text).map fun (count : Nat) => (count : Int)

/-- Figures, and perhaps a point with more figures. -/
def mantissa? (text : List Char) : Option ℚ :=
  match text.dropWhile Char.isDigit with
  | [] => (figures? text).map fun (count : Nat) => (count : ℚ)
  | '.' :: fraction => do
    let whole ← figures? (text.takeWhile Char.isDigit)
    let part ← figures? fraction
    some (whole + part / 10 ^ fraction.length)
  | _ => none

/-- What stands between figures and a power of ten. -/
def isMark (c : Char) : Bool := c == 'e' || c == 'E'

/-- Figures, perhaps with a point, and perhaps a mark with a power of ten. -/
def magnitude? (text : List Char) : Option ℚ :=
  match text.dropWhile (! isMark ·) with
  | [] => mantissa? text
  | _ :: power => do
    let mantissa ← mantissa? (text.takeWhile (! isMark ·))
    let power ← signed? power
    some (mantissa * 10 ^ power)

/-- The sign and the magnitude of a number. -/
def read? : List Char → Option (Bool × ℚ)
  | '-' :: text => (magnitude? text).map fun value => (true, value)
  | text => (magnitude? text).map fun value => (false, value)

/-! ### Rows of figures -/

variable {text whole fraction : List Char}

/-- Figures only, and at least one. -/
def IsRow (text : List Char) : Prop := text ≠ [] ∧ ∀ c ∈ text, c.isDigit = true

private theorem IsRow.reads (row : IsRow text) :
    figures? text = some (Nat.ofDigitChars 10 text 0) :=
  if_pos (by simpa [IsRow] using row)

private theorem figures_minus (text : List Char) : figures? ('-' :: text) = none := rfl

/-- Two rows of figures with a point between them. -/
theorem IsRow.point (row : IsRow whole) (row' : IsRow fraction) :
    ∀ c ∈ whole ++ '.' :: fraction, c.isDigit = true ∨ c = '.' := by
  intro c held
  rcases List.mem_append.mp held with before | held
  · exact .inl (row.2 c before)
  · rcases List.mem_cons.mp held with rfl | behind
    · exact .inr rfl
    · exact .inl (row'.2 c behind)

theorem IsRow.toDigits (count : Nat) : IsRow (Nat.toDigits 10 count) :=
  ⟨Nat.toDigits_ne_nil, fun _ held => Nat.isDigit_of_mem_toDigits (by decide) (by decide) held⟩

/-- A count needs no sign, -/
private theorem signed_of_figures {count : Nat} (row : figures? text = some count) :
    signed? text = some (count : Int) := by
  unfold signed?
  split
  case h_1 rest =>
    rw [figures_minus] at row
    cases row
  case h_2 => rw [row]; rfl

/-- and a power of ten has one if it is negative. -/
private theorem signed_toString (power : Int) : signed? (toString power).toList = some power := by
  have reads (count : Nat) : figures? count.repr.toList = some count := by
    rw [Nat.toList_repr, (IsRow.toDigits count).reads, Nat.ofDigitChars_toDigits (by decide) (by decide)]
  rw [Int.toString_eq_repr, Int.repr_eq_if]
  split
  case isTrue positive => rw [signed_of_figures (reads _), Int.toNat_of_nonneg positive]
  case isFalse negative =>
    rw [String.toList_append, show "-".toList = ['-'] from rfl, List.singleton_append, signed?, reads]
    simp only [Option.map_some, Option.some.injEq]
    omega

/-- A power of ten has figures, and perhaps a sign. -/
private theorem power_characters (power : Int) :
    ∀ c ∈ (toString power).toList, c.isDigit = true ∨ c = '-' := by
  have row (count : Nat) := (IsRow.toDigits count).2
  intro c held
  rw [Int.toString_eq_repr, Int.repr_eq_if] at held
  split at held
  · rw [Nat.toList_repr] at held
    exact .inl (row _ c held)
  · rw [String.toList_append, Nat.toList_repr] at held
    rcases List.mem_append.mp held with sign | held
    · exact .inr (List.mem_singleton.mp sign)
    · exact .inl (row _ c held)

private theorem mantissa_whole (row : IsRow whole) :
    mantissa? whole = some (Nat.ofDigitChars 10 whole 0 : ℚ) := by
  have rest : whole.dropWhile Char.isDigit = [] := by simpa using row.2
  rw [mantissa?, rest]
  simp [row.reads]

/-- A point divides by ten for each figure behind it. -/
theorem mantissa_point (row : IsRow whole) (row' : IsRow fraction) :
    mantissa? (whole ++ '.' :: fraction) =
      some ((Nat.ofDigitChars 10 (whole ++ fraction) 0 : ℚ) / 10 ^ fraction.length) := by
  have front : (whole ++ '.' :: fraction).takeWhile Char.isDigit = whole := by
    rw [List.takeWhile_append_of_pos row.2]
    simp
  have rest : (whole ++ '.' :: fraction).dropWhile Char.isDigit = '.' :: fraction := by
    rw [List.dropWhile_append_of_pos row.2]
    simp
  rw [mantissa?, rest, front]
  simp only [row.reads, row'.reads, Option.bind_eq_bind, Option.bind_some, Option.some.injEq]
  rw [Nat.ofDigitChars_append, @Nat.ofDigitChars_eq_ofDigitChars_zero fraction (Nat.ofDigitChars ..)]
  push_cast
  field_simp

/-- A figure or a point is no mark. -/
theorem not_mark_of_figure {c : Char} (figure : c.isDigit = true ∨ c = '.') : (! isMark c) = true := by
  rw [Bool.not_eq_true', isMark, Bool.or_eq_false_iff, beq_eq_false_iff_ne, beq_eq_false_iff_ne]
  refine ⟨?_, ?_⟩
  all_goals
    rintro rfl
    revert figure
    decide

theorem magnitude_unmarked (unmarked : ∀ c ∈ text, (! isMark c) = true) : magnitude? text = mantissa? text := by
  have rest : text.dropWhile (! isMark ·) = [] := List.dropWhile_eq_nil_iff.mpr unmarked
  rw [magnitude?, rest]

/-- A mark brings a power of ten. -/
theorem magnitude_marked {mark : Char} {mantissa : ℚ} {power : Int} (marks : isMark mark = true)
    (unmarked : ∀ c ∈ text, (! isMark c) = true)
    (reads : mantissa? text = some mantissa) :
    magnitude? (text ++ mark :: (toString power).toList) = some (mantissa * 10 ^ power) := by
  have front : (text ++ mark :: (toString power).toList).takeWhile (! isMark ·) = text := by
    rw [List.takeWhile_append_of_pos unmarked]
    simp [marks]
  have rest : (text ++ mark :: (toString power).toList).dropWhile (! isMark ·) = 
      mark :: (toString power).toList := by
    rw [List.dropWhile_append_of_pos unmarked]
    simp [marks]
  rw [magnitude?, rest, front]
  simp only [reads, signed_toString, Option.bind_eq_bind, Option.bind_some]

end Numeral

/-! ### Both forms of a decimal -/

namespace Decimal
open Numeral

/-- Moving the point. -/
private theorem value_mul (decimal : Decimal) (places : Nat) :
    decimal.value * 10 ^ places = decimal.digits * 10 ^ (decimal.exponent + places) := by
  rw [value, mul_assoc, ← zpow_natCast, ← zpow_add₀ (by norm_num)]

@[simp] theorem ofDigitChars_figures (decimal : Decimal) :
    Nat.ofDigitChars 10 decimal.figures 0 = decimal.digits :=
  Nat.ofDigitChars_toDigits (by decide) (by decide)

/-- A decimal is written as two rows of figures with a point between them, which together are as many
times larger than the decimal as the second row has figures. -/
private theorem plain_parts (decimal : Decimal) : ∃ whole fraction,
    decimal.plain = whole ++ '.' :: fraction ∧ IsRow whole ∧ IsRow fraction ∧
      (Nat.ofDigitChars 10 (whole ++ fraction) 0 : ℚ) = decimal.value * 10 ^ fraction.length := by
  have digits := decimal.figures_digits
  have first : decimal.leading = decimal.exponent + decimal.figures.length - 1 := rfl
  unfold plain
  extract_lets whole
  split
  case isTrue below =>
    refine ⟨['0'], _, rfl, ⟨by simp, by simp⟩, ⟨by simp [figures_ne_nil], ?_⟩, ?_⟩
    · exact List.forall_mem_append.mpr ⟨zeros_digits _, digits⟩
    · have all : decimal.exponent +
          ((List.replicate (-(decimal.leading + 1)).toNat '0' ++ decimal.figures).length : Nat) = 0 := by
        simp
        omega
      rw [value_mul, all]
      simp [Nat.ofDigitChars_cons, Nat.ofDigitChars_append, Nat.ofDigitChars_replicate_zero]
  case isFalse above =>
    split
    case isTrue padded =>
      refine ⟨decimal.figures ++ List.replicate (whole - decimal.figures.length) '0', ['0'], by simp,
        ⟨by simp [figures_ne_nil], ?_⟩, ⟨by simp, by simp⟩, ?_⟩
      · exact List.forall_mem_append.mpr ⟨digits, zeros_digits _⟩
      · have all : decimal.exponent + ((['0'] : List Char).length : Nat) =
            (whole - decimal.figures.length + 1 : Nat) := by
          simp
          omega
        rw [value_mul, all, zpow_natCast]
        simp [Nat.ofDigitChars_cons, Nat.ofDigitChars_append, Nat.ofDigitChars_replicate_zero]
        ring
    case isFalse short =>
      refine ⟨decimal.figures.take whole, decimal.figures.drop whole, rfl, ⟨?_, ?_⟩, ⟨?_, ?_⟩, ?_⟩
      · have begun : whole ≠ 0 := by omega
        simp [begun, figures_ne_nil]
      · exact fun c held => digits c (List.mem_of_mem_take held)
      · simp
        omega
      · exact fun c held => digits c (List.mem_of_mem_drop held)
      · have all : decimal.exponent + ((decimal.figures.drop whole).length : Nat) = 0 := by
          simp
          omega
        rw [value_mul, all]
        simp

/-- With an exponent it is written as figures, perhaps with a point, which stand for the decimal with its
first digit before the point. -/
private theorem scientific_parts (decimal : Decimal) (mark : Char) (padded : Bool) : ∃ front,
    decimal.scientific mark padded = front ++ mark :: (toString decimal.leading).toList ∧
      (∀ c ∈ front, c.isDigit = true ∨ c = '.') ∧
      mantissa? front = some (decimal.value / 10 ^ decimal.leading) := by
  have digits := decimal.figures_digits
  have place : decimal.leading = decimal.exponent + decimal.figures.length - 1 := rfl
  have count := decimal.ofDigitChars_figures
  obtain ⟨first, more, split⟩ := List.exists_cons_of_ne_nil decimal.figures_ne_nil
  rw [split] at digits place count
  have one : IsRow [first] := ⟨by simp, by simpa using digits first (.head _)⟩
  have scaled : decimal.value / 10 ^ decimal.leading = decimal.digits / 10 ^ more.length := by
    have all : decimal.leading = decimal.exponent + more.length := by
      rw [place, List.length_cons]
      omega
    rw [all, zpow_add₀ (by norm_num), zpow_natCast, value]
    field_simp
  rw [scaled]
  unfold scientific
  rw [split]
  cases more with
  | nil =>
    cases padded with
    | false =>
      refine ⟨[first], rfl, by simpa using .inl (digits first (.head _)), ?_⟩
      rw [mantissa_whole one, count]
      simp
    | true =>
      refine ⟨[first, '.', '0'], rfl, by simpa using .inl (digits first (.head _)), ?_⟩
      have reads := mantissa_point one (⟨by simp, by simp⟩ : IsRow ['0'])
      rw [Nat.ofDigitChars_append, count] at reads
      rw [show [first, '.', '0'] = [first] ++ '.' :: ['0'] from rfl, reads]
      simp [Nat.ofDigitChars_cons]
  | cons second more =>
    have others : IsRow (second :: more) := ⟨by simp, fun c later => digits c (.tail _ later)⟩
    refine ⟨[first] ++ '.' :: second :: more, rfl, one.point others, ?_⟩
    rw [mantissa_point one others, List.singleton_append, count]

/-- Both forms are read back as the decimal. -/
theorem magnitude_plain (decimal : Decimal) : magnitude? decimal.plain = some decimal.value := by
  obtain ⟨whole, fraction, text, row, row', count⟩ := decimal.plain_parts
  rw [text, magnitude_unmarked fun c held => not_mark_of_figure (row.point row' c held),
    mantissa_point row row', count, mul_div_cancel_right₀ _ (by positivity)]

theorem magnitude_scientific {mark : Char} (marks : isMark mark = true) (padded : Bool) (decimal : Decimal) :
    magnitude? (decimal.scientific mark padded) = some decimal.value := by
  obtain ⟨front, text, figures, reads⟩ := decimal.scientific_parts mark padded
  rw [text, magnitude_marked marks (fun c held => not_mark_of_figure (figures c held)) reads,
    div_mul_cancel₀ _ (by positivity)]

end Decimal

/-! ### Doubles -/

namespace Number
open Numeral
variable {style : Style} {number first second : Number} {negative : Bool} {magnitude : Binary}

/-- The digits of a magnitude are read back as its shortest decimal. -/
theorem Style.magnitude_digits (marks : isMark style.mark = true) (magnitude : Binary) :
    magnitude? (style.digits magnitude) = some magnitude.shortest.value := by
  unfold digits
  extract_lets decimal
  split
  · exact decimal.magnitude_plain
  · exact decimal.magnitude_scientific marks _

/-- A text with a magnitude has no sign. -/
private theorem read_of_magnitude {text : List Char} {value : ℚ}
    (reads : magnitude? text = some value) :
    read? text = some (false, value) := by
  have signless (text : List Char) : mantissa? ('-' :: text) = none := rfl
  unfold read?
  split
  case h_1 rest =>
    unfold magnitude? at reads
    split at reads
    · rw [signless] at reads
      cases reads
    · rw [List.takeWhile_cons_of_pos (by decide), signless] at reads
      cases reads
  case h_2 => rw [reads]; rfl

/-- A finite double is read back as its sign and its shortest decimal. -/
theorem read_write (marks : isMark style.mark = true) (finite : number.meaning = .finite negative magnitude) :
    read? (number.write style).toList = some (negative, magnitude.shortest.value) := by
  rw [write, finite]
  cases negative with
  | false => rw [String.toList_ofList, read_of_magnitude (style.magnitude_digits marks magnitude)]
  | true => rw [String.toList_ofList, read?, style.magnitude_digits marks]; rfl

/-- A style that keeps numbers apart: its exponents can be read, and the texts without figures are
different. -/
structure Style.Readable (style : Style) : Prop where
  marks : isMark style.mark = true
  nan : read? style.nan.toList = none
  infinity : read? style.infinity.toList = none
  minusInfinity : read? style.minusInfinity.toList = none
  apart : [style.nan, style.infinity, style.minusInfinity].Nodup

/-- What is not finite is written without figures. -/
theorem read_write_none (readable : style.Readable)
    (other : ∀ negative magnitude, number.meaning ≠ .finite negative magnitude) :
    read? (number.write style).toList = none := by
  unfold write
  split
  · exact readable.nan
  · exact readable.minusInfinity
  · exact readable.infinity
  · exact absurd ‹_› (other _ _)
  · exact absurd ‹_› (other _ _)

/-- Two doubles have the same text exactly if they stand for the same: all NaNs share one text, and no other
doubles do. -/
theorem write_eq_iff (readable : style.Readable) :
    first.write style = second.write style ↔ first.meaning = second.meaning := by
  refine ⟨fun same => ?_, fun same => by rw [write, write, same]⟩
  cases meant : first.meaning with
  | finite negative magnitude =>
    have reads := read_write readable.marks meant
    rw [same] at reads
    cases meant' : second.meaning with
    | finite negative' magnitude' =>
      rw [read_write readable.marks meant', Option.some.injEq, Prod.mk.injEq] at reads
      obtain ⟨rfl, equal⟩ := reads
      have covers := magnitude.shortest_covers
      rw [← equal] at covers
      rw [Binary.covers_unique (meaning_canonical meant) (meaning_canonical meant') covers
        magnitude'.shortest_covers]
    | _ =>
      rw [read_write_none readable (by simp [meant'])] at reads
      cases reads
  | _ =>
    cases meant' : second.meaning with
    | finite negative' magnitude' =>
      have reads := read_write readable.marks meant'
      rw [← same, read_write_none readable (by simp [meant])] at reads
      cases reads
    | _ =>
      have apart := readable.apart
      grind [write]

/-- A text other than the one of the NaNs belongs to one bit pattern. -/
theorem write_injective (readable : style.Readable) (real : first.meaning ≠ .nan)
    (same : first.write style = second.write style) : first = second :=
  eq_of_meaning ((write_eq_iff readable).mp same) real

/-- Whatever holds of figures, of the point, the sign and the mark, and of the characters of the texts without
figures, holds of the whole text. -/
theorem write_characters {Allowed : Char → Prop} (figures : ∀ c : Char, c.isDigit = true → Allowed c)
    (marks : ∀ c ∈ ['.', '-', style.mark], Allowed c)
    (words : ∀ word ∈ [style.nan, style.infinity, style.minusInfinity], ∀ c ∈ word.toList, Allowed c) :
    ∀ c ∈ (number.write style).toList, Allowed c := by
  have plain {c : Char} (figure : c.isDigit = true ∨ c = '.') : Allowed c :=
    figure.elim (figures c) fun point => marks c (by simp [point])
  have digits (magnitude : Binary) : ∀ c ∈ style.digits magnitude, Allowed c := by
    intro c held
    unfold Style.digits at held
    extract_lets decimal at held
    split at held
    · obtain ⟨whole, fraction, text, row, row', -⟩ := decimal.plain_parts
      rw [text] at held
      exact plain (row.point row' c held)
    · obtain ⟨front, text, row, -⟩ := decimal.scientific_parts style.mark style.padded
      rw [text] at held
      rcases List.mem_append.mp held with held | held
      · exact plain (row c held)
      · rcases List.mem_cons.mp held with rfl | held
        · exact marks _ (by simp)
        · exact (power_characters _ c held).elim (figures c) fun sign => marks c (by simp [sign])
  intro c held
  unfold write at held
  split at held
  · exact words _ (by simp) c held
  · exact words _ (by simp) c held
  · exact words _ (by simp) c held
  · rw [String.toList_ofList] at held
    rcases List.mem_cons.mp held with rfl | held
    · exact marks _ (by simp)
    · exact digits _ c held
  · rw [String.toList_ofList] at held
    exact digits _ c held

end Number

/-- The constants in labels are kept apart. -/
theorem Node.numberStyle_readable : Node.numberStyle.Readable := ⟨rfl, rfl, rfl, rfl, by decide⟩

end LoopLang
