import LoopLang.Proofs.Output

/-! What a buffer gives back. Texts are printed into it and it is cleared, in any order. It then holds the texts
printed since it was last cleared, with a newline behind each of them. Its lines are what stands between the
newlines, less the carriage return that belongs to the newline behind it. They are the printed texts again as long
as no text has a newline of its own or ends in a carriage return. -/
namespace LoopLang

/-! ### How a text falls into lines -/

namespace Lines

/-- Each newline ends a line, and a carriage return directly before it is part of the line's end, but only one is.
Behind the last newline a line begins only if there is something. -/
inductive Falls : List Char → List (List Char) → Prop where
  | nothing : Falls [] []
  | ended (whole : '\n' ∉ line) (bare : line.getLast? ≠ some '\r') (later : Falls rest lines) :
      Falls (line ++ '\n' :: rest) (line :: lines)
  | returned (whole : '\n' ∉ line) (later : Falls rest lines) :
      Falls (line ++ '\r' :: '\n' :: rest) (line :: lines)
  | unended (whole : '\n' ∉ line) (some : line ≠ []) : Falls line [line]

section
variable {line rest text : List Char} {lines : List (List Char)}

@[simp] theorem withoutReturn_return (line : List Char) : withoutReturn (line ++ ['\r']) = line := by
  simp [withoutReturn]

theorem withoutReturn_eq_self_iff : withoutReturn line = line ↔ line.getLast? ≠ some '\r' := by
  by_cases returned : line.getLast? = some '\r'
  · obtain ⟨bare, rfl⟩ := List.getLast?_eq_some_iff.mp returned
    simp
  · simp [withoutReturn, returned]

private theorem split_unended (whole : '\n' ∉ line) (some : line ≠ []) : split line = [line] := by
  simp [split, List.splitOn_eq_singleton whole, some]

/-- A text falls into its lines, as the first newline cuts one off and leaves a shorter text, -/
private theorem falls_split (text : List Char) : Falls text (split text) := by
  by_cases newline : '\n' ∈ text
  · obtain ⟨line, rest, parts, whole⟩ := List.eq_append_cons_of_mem newline
    have shorter : rest.length < text.length := by simp [parts, Nat.lt_add_left]
    have later := falls_split rest
    rw [parts, split_cons rest whole]
    by_cases returned : line.getLast? = some '\r'
    · obtain ⟨bare, rfl⟩ := List.getLast?_eq_some_iff.mp returned
      rw [withoutReturn_return, List.append_assoc]
      exact .returned (fun held => whole (List.mem_append_left _ held)) later
    · rw [withoutReturn_eq_self_iff.mpr returned]
      exact .ended whole returned later
  · by_cases empty : text = []
    · subst empty
      exact .nothing
    · rw [split_unended newline empty]
      exact .unended newline empty
termination_by text.length

/-- and into no others. -/
theorem Falls.split_eq (falls : Falls text lines) : split text = lines := by
  induction falls with
  | nothing => rfl
  | ended whole bare _ later => rw [split_cons _ whole, withoutReturn_eq_self_iff.mpr bare, later]
  | @returned line rest _ whole _ later =>
    have wholeToo : '\n' ∉ line ++ ['\r'] := by simpa using whole
    have first := split_cons rest wholeToo
    rwa [List.append_assoc, withoutReturn_return, later] at first
  | unended whole some => exact split_unended whole some

theorem split_eq_iff : split text = lines ↔ Falls text lines :=
  ⟨fun same => same ▸ falls_split text, Falls.split_eq⟩

theorem Falls.whole (falls : Falls text lines) : ∀ line ∈ lines, '\n' ∉ line := by
  induction falls with
  | nothing => simp
  | ended whole _ _ later => exact List.forall_mem_cons.mpr ⟨whole, later⟩
  | returned whole _ later => exact List.forall_mem_cons.mpr ⟨whole, later⟩
  | unended whole _ => simpa using whole

end
end Lines

namespace Printer

/-! ### Printing and clearing -/

/-- What is done to a printer. -/
inductive Call where
  | println (text : String)
  | clear
deriving DecidableEq

/-- The printer after a call, -/
def call (printer : Printer) : Call → Printer
  | .println text => printer.println text
  | .clear => printer.clear

/-- and after several in order. -/
def after (printer : Printer) (calls : List Call) : Printer := calls.foldl call printer

/-- The texts printed since the last clearing: those with no clearing behind them. -/
def sinceClear : List Call → List String
  | [] => []
  | .println text :: later => if later.contains .clear then sinceClear later else text :: sinceClear later
  | .clear :: later => sinceClear later

/-- A buffer holds these texts, and before them what it held at the start if it was never cleared. -/
theorem after_buffer (held : String) (calls : List Call) : (buffer held).after calls =
    buffer ((if calls.contains .clear then "" else held) ++ joined (sinceClear calls)) := by
  induction calls generalizing held with
  | nil => simp [after, sinceClear, joined]
  | cons call later ih =>
    cases call with
    | println text =>
      refine (ih _).trans ?_
      by_cases cleared : Call.clear ∈ later
      · simp [sinceClear, cleared]
      · simp [sinceClear, cleared, joined, String.push_eq_append, String.append_assoc]
    | clear =>
      refine (ih _).trans ?_
      simp [sinceClear]

/-- Each text gives the pieces between its newlines. -/
theorem lines_joined_pieces (texts : List String) : (buffer (joined texts)).lines =
    texts.flatMap fun text => (text.toList.splitOn '\n').map (String.ofList ∘ Lines.withoutReturn) := by
  rw [Printer.lines, output, toList_joined, Lines.split_pieces, List.flatMap_map, List.map_flatMap]
  simp only [List.map_map]

theorem lines_eq_iff_falls {printer : Printer} {lines : List String} :
    printer.lines = lines ↔ Lines.Falls printer.output.toList (lines.map String.toList) := by
  rw [← Lines.split_eq_iff, Printer.lines]
  constructor
  · rintro rfl
    simp
  · intro same
    simp [same]

/-- Texts come back as they are if and only if none of them has a newline or ends in a carriage return: no line has a
newline in it, and a text without one loses a return at its end. -/
theorem lines_joined_eq_iff {texts : List String} : (buffer (joined texts)).lines = texts ↔
    ∀ text ∈ texts, '\n' ∉ text.toList ∧ text.toList.getLast? ≠ some '\r' := by
  refine ⟨fun same => ?_, lines_joined⟩
  have whole : ∀ text ∈ texts, '\n' ∉ text.toList := by simpa using (lines_eq_iff_falls.mp same).whole
  have stripped : texts.map (fun text => String.ofList (Lines.withoutReturn text.toList)) = texts.map id := by
    rw [← lines_joined_whole whole, same, List.map_id]
  refine fun text held => ⟨whole text held, Lines.withoutReturn_eq_self_iff.mp ?_⟩
  simpa using congrArg String.toList (List.map_inj_left.mp stripped text held)

/-- A buffer holds the texts printed since it was last cleared, each with a newline behind it, whatever the texts are.
Its lines are those that this text falls into: each printed text gives the pieces between its newlines, without one
carriage return where a piece ends in some. So the lines are the printed texts, empty ones and returns inside them
included, as long as none of these has a newline or ends in a carriage return, and never else. -/
theorem captured_lines_undo_printing (calls : List Call) :
    let printer := (buffer "").after calls
    let texts := sinceClear calls
    printer.output = String.join (texts.map (· ++ "\n")) ∧
    (∀ lines, printer.lines = lines ↔ Lines.Falls printer.output.toList (lines.map String.toList)) ∧
    printer.lines =
      texts.flatMap (fun text => (text.toList.splitOn '\n').map (String.ofList ∘ Lines.withoutReturn)) ∧
    (printer.lines = texts ↔ ∀ text ∈ texts, '\n' ∉ text.toList ∧ text.toList.getLast? ≠ some '\r') := by
  intro printer texts
  have holds : printer = buffer (joined texts) := by simp [printer, after_buffer, texts]
  refine ⟨by rw [holds]; rfl, fun lines => lines_eq_iff_falls, ?_, ?_⟩
  · rw [holds, lines_joined_pieces]
  · rw [holds, lines_joined_eq_iff]

/-- After a clearing two empty texts and one with a return inside come back as they were. A newline makes two lines of
a text, and of two returns before it one is left. -/
theorem lines_since_clear :
    ((buffer "").after [.println "gone", .clear, .println "", .println "a\rb", .println ""]).lines = ["", "a\rb", ""] ∧
    ((buffer "").after [.println "a\r\r\nb", .println "c\r"]).lines = ["a\r", "b", "c"] := by
  constructor
  · obtain ⟨-, -, -, plain⟩ :=
      captured_lines_undo_printing [.println "gone", .clear, .println "", .println "a\rb", .println ""]
    exact plain.mpr (by decide)
  · obtain ⟨-, -, pieces, -⟩ := captured_lines_undo_printing [.println "a\r\r\nb", .println "c\r"]
    exact pieces.trans (by decide +kernel)

end Printer
end LoopLang
