import LoopLang.Proofs.Events
import LoopLang.Proofs.NumberText

/-! What becomes of printed values. A run writes to its printer and never looks at it: with another
printer it does the same things and comes to the same end. A buffer receives the text of each value with
a newline behind it, and so does the console. The text of a value has no newline of its own, so the lines
of a buffer are again the texts of the values. -/
namespace LoopLang

/-! ### Text and lines -/

/-- A text with a newline behind it gives a line for each of its pieces. -/
theorem Lines.split_append (text rest : List Char) :
    split (text ++ '\n' :: rest) = (text.splitOn '\n').map withoutReturn ++ split rest := by
  have some := List.splitOn_ne_nil '\n' rest
  simp only [split, List.splitOn_append_cons_self, List.dropLast_append_of_ne_nil some,
    List.getLast?_append_of_ne_nil _ some, List.map_append, List.append_assoc]

/-- What stands before the first newline is the first line, without a carriage return at its end. -/
theorem Lines.split_cons {line : List Char} (rest : List Char) (whole : '\n' ∉ line) :
    split (line ++ '\n' :: rest) = withoutReturn line :: split rest := by
  rw [split_append, List.splitOn_eq_singleton whole, List.map_singleton, List.singleton_append]

/-- With a newline behind each of them, texts give the pieces between their own newlines. -/
theorem Lines.split_pieces (texts : List (List Char)) :
    split (texts.flatMap (· ++ ['\n'])) = texts.flatMap fun text => (text.splitOn '\n').map withoutReturn := by
  induction texts with
  | nil => rfl
  | cons text texts later =>
    rw [List.flatMap_cons, List.append_assoc, List.singleton_append, split_append, later, List.flatMap_cons]

/-- Lines are told apart by the newlines behind them. -/
theorem Lines.split_ended {lines : List (List Char)} (whole : ∀ line ∈ lines, '\n' ∉ line) :
    split (lines.flatMap (· ++ ['\n'])) = lines.map withoutReturn := by
  rw [split_pieces, List.map_eq_flatMap]
  refine List.flatMap_congr fun line held => ?_
  rw [List.splitOn_eq_singleton (whole line held), List.map_singleton]

namespace Printer

/-- Lines with a newline behind each of them. -/
def joined (lines : List String) : String := String.join (lines.map (· ++ "\n"))

theorem toList_joined (lines : List String) :
    (joined lines).toList = (lines.map String.toList).flatMap (· ++ ['\n']) := by
  induction lines with
  | nil => simp [joined]
  | cons line lines later => simpa [joined] using later

/-- A buffer keeps printed lines behind what it held. -/
theorem printLines_buffer (text : String) (lines : List String) :
    (buffer text).printLines lines = buffer (text ++ joined lines) := by
  induction lines generalizing text with
  | nil => simp [joined]
  | cons line lines ih =>
    exact (ih _).trans (by simp [joined, String.push_eq_append, String.append_assoc])

/-- The console shows printed lines behind what it has to show. -/
theorem printLines_console (text : String) (lines : List String) :
    (console text).printLines lines = console (text ++ joined lines) := by
  induction lines generalizing text with
  | nil => simp [joined]
  | cons line lines ih =>
    exact (ih _).trans (by simp [joined, String.push_eq_append, String.append_assoc])

theorem printLines_silent (lines : List String) : silent.printLines lines = silent := by
  induction lines with
  | nil => rfl
  | cons line lines ih => exact ih

/-- Lines that have no newline come back from a buffer without a carriage return at their end. -/
theorem lines_joined_whole {lines : List String} (whole : ∀ line ∈ lines, '\n' ∉ line.toList) :
    (buffer (joined lines)).lines = lines.map fun line => String.ofList (Lines.withoutReturn line.toList) := by
  have wholeLists : ∀ line ∈ lines.map String.toList, '\n' ∉ line := by simpa using whole
  rw [Printer.lines, output, toList_joined, Lines.split_ended wholeLists, List.map_map, List.map_map]
  rfl

/-- If they do not end in one they come back as they are. -/
theorem lines_joined {lines : List String}
    (plain : ∀ line ∈ lines, '\n' ∉ line.toList ∧ line.toList.getLast? ≠ some '\r') :
    (buffer (joined lines)).lines = lines := by
  rw [lines_joined_whole fun line held => (plain line held).1]
  refine (List.map_congr_left fun line held => ?_).trans (List.map_id lines)
  simp [Lines.withoutReturn, (plain line held).2]

/-- The text of a value consists of letters, figures, signs and points. -/
theorem valueText_plain (value : Float) :
    '\n' ∉ (valueText value).toList ∧ (valueText value).toList.getLast? ≠ some '\r' := by
  have seen : ∀ c ∈ (valueText value).toList, c ≠ '\n' ∧ c ≠ '\r' :=
    Number.write_characters (by rintro c figure; constructor <;> (rintro rfl; cases figure))
      (by simp [numberStyle]) (by simp [numberStyle])
  exact ⟨fun held => (seen _ held).1 rfl, fun last => (seen _ (List.mem_of_getLast? last)).2 rfl⟩

/-- The lines of a buffer that held nothing are the texts of the printed values. -/
theorem lines_printed (values : List Float) :
    ((buffer "").printLines (values.map valueText)).lines = values.map valueText := by
  rw [printLines_buffer, String.empty_append]
  refine lines_joined fun line held => ?_
  obtain ⟨value, -, rfl⟩ := List.mem_map.mp held
  exact valueText_plain value

end Printer

namespace Event

/-- The value that an event prints. -/
def value? : Event → Option Float
  | printed value => some value
  | started | assigned _ _ => none

/-- The lines of events are the texts of their values. -/
private theorem filterMap_line (events : List Event) :
    events.filterMap line? = (events.filterMap value?).map Printer.valueText := by
  rw [List.map_filterMap]
  refine List.filterMap_congr fun event _ => ?_
  cases event <;> rfl

end Event

namespace Machine

/-- The same machine with another printer. -/
def withPrinter (machine : Machine) (printer : Printer) : Machine := { machine with printer }

/-- The same events happen to a machine with another printer. -/
private theorem withPrinter_after (machine : Machine) (printer : Printer) (events : List Event) :
    (machine.withPrinter printer).after events =
      (machine.after events).withPrinter (printer.printLines (events.filterMap Event.line?)) := by
  induction events generalizing machine printer with
  | nil => rfl
  | cons event later ih =>
    cases event with
    | started => exact ih machine.count printer
    | assigned name value => exact ih (machine.assign name value) printer
    | printed value =>
      exact ih (machine.println (Printer.valueText value)) (printer.println (Printer.valueText value))

end Machine

/-! ### Runs with another printer -/

namespace Traced

/-- The action does the same whatever the printer is. -/
def Blind (traced : Traced) : Prop :=
  ∀ machine printer, (traced.action (machine.withPrinter printer)).1 = (traced.action machine).1 ∧
    traced.events (machine.withPrinter printer) = traced.events machine

theorem blind : Law (fun _ => True) (fun _ => True) Blind where
  still _ machine printer := ⟨rfl, rfl⟩
  assign value _ machine printer := ⟨rfl, rfl⟩
  print value machine printer := ⟨rfl, rfl⟩
  counted := by
    intro traced blind machine printer
    cases exceeded : machine.count.exceeded? with
    | some limit =>
      obtain ⟨ending, events⟩ := counted_spent machine traced exceeded
      obtain ⟨endingToo, eventsToo⟩ := counted_spent (machine.withPrinter printer) traced exceeded
      exact ⟨endingToo.trans ending.symm, eventsToo.trans events.symm⟩
    | none =>
      obtain ⟨ending, events⟩ := counted_free machine traced exceeded
      obtain ⟨endingToo, eventsToo⟩ := counted_free (machine.withPrinter printer) traced exceeded
      obtain ⟨same, alike⟩ := blind machine.count printer
      rw [ending, events, endingToo, eventsToo]
      exact ⟨same, congrArg _ alike⟩
  withValue := by
    intro expr traced _ blind machine printer
    cases evaluates : expr.eval machine.store with
    | ok result =>
      obtain ⟨ending, events⟩ := withValue_ok machine traced evaluates
      obtain ⟨endingToo, eventsToo⟩ := withValue_ok (machine.withPrinter printer) traced evaluates
      rw [ending, events, endingToo, eventsToo]
      exact blind result machine printer
    | error cause =>
      obtain ⟨ending, events⟩ := withValue_error machine traced evaluates
      obtain ⟨endingToo, eventsToo⟩ := withValue_error (machine.withPrinter printer) traced evaluates
      exact ⟨endingToo.trans ending.symm, eventsToo.trans events.symm⟩
  andThen := by
    intro first second blind blindNext machine printer
    obtain ⟨same, alike⟩ := blind machine printer
    by_cases completed : (first.action machine).1 = some .completed
    · obtain ⟨ending, events⟩ := andThen_completed machine second completed
      obtain ⟨endingToo, eventsToo⟩ :=
        andThen_completed (machine.withPrinter printer) second (same.trans completed)
      rw [alike, Machine.withPrinter_after] at endingToo eventsToo
      obtain ⟨sameNext, alikeNext⟩ := blindNext (machine.after (first.events machine))
        (printer.printLines ((first.events machine).filterMap Event.line?))
      rw [ending, events, endingToo, eventsToo]
      exact ⟨sameNext, congrArg _ alikeNext⟩
    · obtain ⟨ending, events⟩ := andThen_stopped machine second completed
      obtain ⟨endingToo, eventsToo⟩ :=
        andThen_stopped (machine.withPrinter printer) second (same.symm ▸ completed)
      rw [ending, events, endingToo, eventsToo]
      exact ⟨same, alike⟩
  takeExit := by
    intro traced blind machine printer
    obtain ⟨same, alike⟩ := blind machine printer
    exact ⟨congrArg (Option.map Action.endLoop) same, alike⟩

end Traced

namespace Stmt

/-- The values that a run prints in order. -/
def printed (rounds : Nat) (stmt : Stmt) (machine : Machine) : List Float :=
  (stmt.events rounds machine).filterMap Event.value?

private theorem blind (rounds : Nat) (stmt : Stmt) : (stmt.traced rounds).Blind :=
  Traced.blind.stmt rounds stmt (fun _ _ => trivial) fun _ _ => trivial

/-- The printer has no part in what is printed. -/
private theorem printed_withPrinter (rounds : Nat) (stmt : Stmt) (machine : Machine)
    (printer : Printer) :
    stmt.printed rounds (machine.withPrinter printer) = stmt.printed rounds machine :=
  congrArg (List.filterMap Event.value?) (stmt.blind rounds machine printer).2

/-- With another printer a run is the same but for what this printer holds. -/
theorem exec_withPrinter (rounds : Nat) (stmt : Stmt) (machine : Machine) (printer : Printer) :
    stmt.exec rounds (machine.withPrinter printer) = ((stmt.exec rounds machine).1,
      (stmt.exec rounds machine).2.withPrinter
        (printer.printLines ((stmt.printed rounds machine).map Printer.valueText))) := by
  obtain ⟨same, alike⟩ := stmt.blind rounds machine printer
  simp only [traced_action] at same
  refine Prod.ext same ?_
  rw [exec_after, exec_after, events, alike, Machine.withPrinter_after, Event.filterMap_line]
  rfl

/-- The rules of statements tell what is printed without a limit. -/
theorem lines_of_yields {stmt : Stmt} {machine : Machine} {outcome : Outcome} {final : Store}
    {values : List Float} {started rounds : Nat} (unlimited : machine.limit = none)
    (yields : stmt.Yields machine.store outcome final values started) (enough : started ≤ rounds) :
    (stmt.printed rounds machine).map Printer.valueText = values.map Printer.valueText := by
  have ran := exec_of_yields rounds stmt (machine.withPrinter (.buffer "")) unlimited enough yields
  rw [exec_withPrinter] at ran
  have buffers := congrArg (fun ran => ran.2.printer.lines) ran
  simpa only [Machine.withPrinter, Machine.advance, Printer.lines_printed] using buffers

/-- A run only writes to its printer. Whatever the printer is and holds, the run goes the same way and
prints the same values. Their texts, with a newline behind each of them, come behind what a buffer or the
console held, however the run ends and as far as it goes if it never does. An empty buffer has the texts
of the values as its lines. Without a limit they are the values that the rules of statements tell. -/
theorem printer_is_write_only (stmt : Stmt) (machine : Machine) :
    (∀ printer rounds, stmt.exec rounds (machine.withPrinter printer) = ((stmt.exec rounds machine).1,
        (stmt.exec rounds machine).2.withPrinter
          (printer.printLines ((stmt.printed rounds machine).map Printer.valueText))) ∧
      stmt.printed rounds (machine.withPrinter printer) = stmt.printed rounds machine) ∧
    (∀ printer, (stmt.Endless (machine.withPrinter printer) ↔ stmt.Endless machine) ∧
      let after (final : Machine) := final.withPrinter
        (printer.printLines ((stmt.printed machine.rounds machine).map Printer.valueText))
      (machine.withPrinter printer).exec stmt = (machine.exec stmt).map (Prod.map id after) ∧
      (machine.withPrinter printer).run stmt = (machine.run stmt).map (Prod.map id after)) ∧
    (∀ rounds,
      let received (printer : Printer) := (stmt.exec rounds (machine.withPrinter printer)).2.printer
      let texts := (stmt.printed rounds machine).map Printer.valueText
      (∀ text, received (.buffer text) = .buffer (text ++ Printer.joined texts)) ∧
      (∀ text, received (.console text) = .console (text ++ Printer.joined texts)) ∧
      received .silent = .silent ∧ (received (.buffer "")).lines = texts) ∧
    (machine.limit = none → ∀ outcome final values started,
      stmt.Yields machine.store outcome final values started → ∀ rounds, started ≤ rounds →
        (stmt.printed rounds machine).map Printer.valueText = values.map Printer.valueText) := by
  refine ⟨fun printer rounds => ⟨exec_withPrinter rounds stmt machine printer,
    printed_withPrinter rounds stmt machine printer⟩, fun printer => ⟨?_, ?_⟩, ?_, ?_⟩
  · exact forall_congr' fun rounds => by rw [exec_withPrinter]
  · intro after
    have executes : (machine.withPrinter printer).exec stmt =
        (machine.exec stmt).map (Prod.map id after) := by
      have same := exec_withPrinter machine.rounds stmt machine printer
      have rounds : (machine.withPrinter printer).rounds = machine.rounds := rfl
      rw [Machine.exec, Machine.exec, rounds, same]
      rcases stmt.exec machine.rounds machine with ⟨_ | outcome, final⟩ <;> rfl
    refine ⟨executes, ?_⟩
    rw [Machine.run, executes, Machine.run, Option.map_map, Option.map_map]
    rfl
  · intro rounds received texts
    have holds (printer : Printer) : received printer = printer.printLines texts :=
      congrArg (fun ran => ran.2.printer) (exec_withPrinter rounds stmt machine printer)
    simp only [holds]
    exact ⟨fun text => Printer.printLines_buffer text texts, fun text => Printer.printLines_console text texts,
      Printer.printLines_silent texts, Printer.lines_printed _⟩
  · intro unlimited outcome final values started yields rounds enough
    exact lines_of_yields unlimited yields enough

/-- The line before the error reaches each printer behind what it held. -/
theorem line_before_error_received :
    let lines : Stmt := block [print (.constant ⟨0⟩), print (.var "x")]
    let start : Machine := ⟨Store.empty, .silent, none, 0⟩
    (lines.exec 3 (start.withPrinter (.buffer "a"))).2.printer = .buffer "a0.0\n" ∧
    (lines.exec 3 (start.withPrinter (.console "a"))).2.printer = .console "a0.0\n" ∧
    (lines.exec 3 (start.withPrinter (.buffer ""))).2.printer.lines = ["0.0"] := by
  intro lines start
  have missing : (Expr.var "x").eval Store.empty = .error (.undefinedVariable "x") := by
    have nothing : Store.empty.get? "x" = none := Store.get_empty "x"
    rw [Expr.eval, Store.lookup, nothing]
  have fails : lines.Yields Store.empty (.failed (.undefinedVariable "x")) Store.empty [0.0] 3 :=
    .block (.more (.print rfl) (.stops (.print_fails missing) (by simp)))
  obtain ⟨-, -, received, rules⟩ := printer_is_write_only lines start
  obtain ⟨buffered, shown, -, alone⟩ := received 3
  have zero : [(0.0 : Float)].map Printer.valueText = ["0.0"] := by decide +kernel
  have texts := (rules rfl _ _ _ _ fails 3 (Nat.le_refl 3)).trans zero
  rw [texts] at buffered shown alone
  exact ⟨buffered "a", shown "a", alone⟩

end Stmt
end LoopLang
