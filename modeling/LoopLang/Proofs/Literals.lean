import LoopLang.Java.Expr
import LoopLang.Proofs.JavaTokens

/-! Every finite magnitude is written as a decimal literal that Java takes for a double: it begins with
a digit and has a point or an exponent, however many figures it has and wherever its point is. -/
namespace LoopLang
open Java (Phase)

/-- The literal gets from one phase to another over the text. -/
def Java.Phase.Passes (phase : Phase) (text : List Char) (after : Phase) : Prop :=
  text.foldlM Phase.next phase = some after

namespace Java.Phase.Passes
variable {phase middle after : Phase} {text more : List Char}

theorem append (first : phase.Passes text middle) (second : middle.Passes more after) :
    phase.Passes (text ++ more) after := by
  rw [Passes, List.foldlM_append, first]
  exact second

theorem cons {c : Char} (next : phase.next c = some middle) (second : middle.Passes more after) :
    phase.Passes (c :: more) after := by
  rw [Passes, List.foldlM_cons, next]
  exact second

/-- Digits go on with what has begun, -/
theorem digits (goesOn : ∀ c : Char, c.isDigit = true → phase.next c = some phase)
    (all : ∀ c ∈ text, c.isDigit = true) : phase.Passes text phase := by
  induction text with
  | nil => rfl
  | cons c text ih => exact cons (goesOn c (all c (.head _))) (ih fun d later => all d (.tail _ later))

theorem whole (all : ∀ c ∈ text, c.isDigit = true) : Phase.whole.Passes text .whole :=
  digits (fun _ digit => if_pos digit) all

theorem fraction (all : ∀ c ∈ text, c.isDigit = true) : Phase.fraction.Passes text .fraction :=
  digits (fun _ digit => if_pos digit) all

/-- and in an exponent at least one is needed. -/
theorem power (begins : ∀ c : Char, c.isDigit = true → phase.next c = some .power)
    (all : ∀ c ∈ text, c.isDigit = true) (some : text ≠ []) : phase.Passes text .power := by
  cases text with
  | nil => exact absurd rfl some
  | cons c text =>
    exact cons (begins c (all c (.head _)))
      (digits (fun _ digit => if_pos digit) fun d later => all d (.tail _ later))

end Java.Phase.Passes

/-- A text that begins with a digit and is a literal of a double. -/
def Java.IsLiteral (text : List Char) : Prop :=
  ∃ first more, text = first :: more ∧ first.isDigit = true ∧ Java.isDecimal text = true

private theorem Java.IsLiteral.of_passes {text : List Char} {after : Phase}
    (begins : ∀ c ∈ text.head?, c.isDigit = true) (passes : Phase.whole.Passes text after)
    (ended : after = .fraction ∨ after = .power) : Java.IsLiteral text := by
  cases text with
  | nil =>
    cases passes
    rcases ended with ended | ended <;> cases ended
  | cons first more =>
    refine ⟨first, more, rfl, begins first rfl, ?_⟩
    rw [Java.isDecimal, show (first :: more).foldlM Phase.next .whole = some after from passes]
    rcases ended with rfl | rfl <;> rfl

namespace Decimal
open Java.Phase (Passes)

theorem figures_digits (decimal : Decimal) : ∀ c ∈ decimal.figures, c.isDigit = true :=
  fun _ held => Nat.isDigit_of_mem_toDigits (by decide) (by decide) held

theorem figures_ne_nil (decimal : Decimal) : decimal.figures ≠ [] := Nat.toDigits_ne_nil

theorem zeros_digits (count : Nat) : ∀ c ∈ List.replicate count '0', c.isDigit = true := by
  intro c held
  rw [List.eq_of_mem_replicate held]
  rfl

/-- Written plainly, a decimal has a point with digits before it. -/
theorem plain_isLiteral (decimal : Decimal) : Java.IsLiteral decimal.plain := by
  have digits := decimal.figures_digits
  have digit_of_head {text : List Char} (some : text ≠ [])
      (all : ∀ c ∈ text, c.isDigit = true) (behind : List Char) :
      ∀ c ∈ (text ++ behind).head?, c.isDigit = true := by
    cases text with
    | nil => exact absurd rfl some
    | cons first text =>
      intro c head
      cases head
      exact all first (.head _)
  unfold plain
  extract_lets whole
  split
  · refine .of_passes (by simp) ?_ (.inl rfl)
    exact .cons rfl (.cons rfl (.append (.fraction (zeros_digits _)) (.fraction digits)))
  · split
    · refine .of_passes ?_ ?_ (.inl rfl)
      · rw [List.append_assoc]
        exact digit_of_head decimal.figures_ne_nil digits _
      · exact .append (.append (.whole digits) (.whole (zeros_digits _))) (.cons rfl (.cons rfl rfl))
    · have front : ∀ c ∈ decimal.figures.take whole, c.isDigit = true :=
        fun c held => digits c (List.mem_of_mem_take held)
      have behind : ∀ c ∈ decimal.figures.drop whole, c.isDigit = true :=
        fun c held => digits c (List.mem_of_mem_drop held)
      refine .of_passes ?_ (.append (.whole front) (.cons rfl (.fraction behind))) (.inl rfl)
      have some : decimal.figures.take whole ≠ [] := by
        have begun : whole ≠ 0 := by omega
        simp [begun, figures_ne_nil]
      exact digit_of_head some front _

private theorem exponent_passes (value : Int) : Passes .mark (toString value).toList .power := by
  have digits (n : Nat) : ∀ c ∈ n.repr.toList, c.isDigit = true := by
    intro c held
    rw [Nat.toList_repr] at held
    exact Nat.isDigit_of_mem_toDigits (by decide) (by decide) held
  have some (n : Nat) : n.repr.toList ≠ [] := by simp [Nat.toDigits_ne_nil]
  rw [Int.toString_eq_repr, Int.repr_eq_if]
  split
  · exact .power (fun _ digit => if_pos digit) (digits _) (some _)
  · rw [String.toList_append]
    exact .cons rfl (.power (fun _ digit => if_pos digit) (digits _) (some _))

/-- Written with an exponent, it has a digit first as well. -/
theorem scientific_isLiteral (decimal : Decimal) : Java.IsLiteral (decimal.scientific 'e' false) := by
  have digits := decimal.figures_digits
  obtain ⟨first, more, split⟩ := List.exists_cons_of_ne_nil decimal.figures_ne_nil
  rw [split] at digits
  have exponent := exponent_passes decimal.leading
  have one : Passes .whole [first] .whole := .cons (if_pos (digits first (.head _))) rfl
  have others : ∀ c ∈ more, c.isDigit = true := fun c later => digits c (.tail _ later)
  refine .of_passes ?_ ?_ (.inr rfl)
  · simp [scientific, split, digits first (.head _)]
  · unfold scientific
    rw [split]
    cases more with
    | nil => exact .append (.append one rfl) (.cons rfl exponent)
    | cons second more =>
      exact .append (.append one (.cons rfl (.fraction others))) (.cons rfl exponent)

end Decimal

/-- The digits of every magnitude are a literal of a double. -/
theorem Java.digits_isLiteral (magnitude : Binary) :
    Java.IsLiteral (Java.numberStyle.digits magnitude) := by
  unfold Number.Style.digits
  extract_lets decimal
  split
  · exact decimal.plain_isLiteral
  · exact decimal.scientific_isLiteral

end LoopLang
