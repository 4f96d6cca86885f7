import LoopLang.Printer
import LoopLang.Expr.Eval

/-! What a running program acts on, and the ways of putting actions together. An action changes the
machine and tells how it ended; it has not ended when a loop in it is given too few rounds, and the
machine is then as the last of these rounds left it. Every started statement is counted, and counting
comes before anything the statement does, so a machine that runs out of budget is left as the
statement found it. -/
namespace LoopLang

/-- A store, a printer and a count of the statements started. -/
structure Machine where
  store : Store
  printer : Printer
  /-- The number of statements that may start, if it is bounded. -/
  limit : Option Nat := none
  /-- The number of statements started, the one that broke the budget included. -/
  steps : Nat := 0

/-- How a statement ended. -/
inductive Outcome where
  /-- The statement came to its end. -/
  | completed
  /-- An exit is on its way to the nearest loop. -/
  | exited
  /-- An error stopped the run. -/
  | failed (cause : RunError)
deriving DecidableEq, Repr

namespace Machine

/-- The step counter has 64 bits and stays at its greatest value. -/
def maxSteps : Nat := UInt64.size - 1

/-- Counts the start of a statement. -/
def count (machine : Machine) : Machine :=
  { machine with steps := min (machine.steps + 1) maxSteps }

/-- The limit, once it is exceeded. -/
def exceeded? (machine : Machine) : Option Nat :=
  machine.limit.filter fun limit => limit < machine.steps

/-- Starts counting anew. -/
def resetSteps (machine : Machine) : Machine := { machine with steps := 0 }

/-- Binds a variable. -/
def assign (machine : Machine) (name : String) (value : Float) : Machine :=
  { machine with store := machine.store.insert name value }

/-- Prints a line. -/
def println (machine : Machine) (line : String) : Machine :=
  { machine with printer := machine.printer.println line }

/-- The rounds that any one loop may take. Each round starts a statement, so a limited machine stops
earlier by itself, and an unlimited one gets more rounds than its counter can count. -/
def rounds (machine : Machine) : Nat :=
  match machine.limit with
  | some limit => limit + 1
  | none => UInt64.size

end Machine

/-- What a statement does to a machine, and how it ends if it does. -/
abbrev Action := Machine → Option Outcome × Machine

namespace Action

/-- Ends at once. -/
@[inline] def ended (outcome : Outcome) : Action := fun machine => (some outcome, machine)

/-- Does nothing but count when the budget is spent, and else counts and goes on. -/
@[inline] def counted (action : Action) : Action := fun machine =>
  let machine := machine.count
  match machine.exceeded? with
  | some limit => (some (.failed (.budgetExhausted limit)), machine)
  | none => action machine

/-- The second action follows if the first one completes. -/
@[inline] def andThen (first second : Action) : Action := fun machine =>
  match first machine with
  | (some .completed, machine) => second machine
  | other => other

/-- Acts on the value of an expression, or fails with its error. -/
@[inline] def withValue (value : Expr) (action : Float → Action) : Action := fun machine =>
  match value.eval machine.store with
  | .ok result => action result machine
  | .error cause => (some (.failed cause), machine)

/-- Repeats an action until it exits, for at most the given number of rounds. -/
def untilExit (action : Action) : Nat → Action
  | 0, machine => (none, machine)
  | rounds + 1, machine =>
    match action machine with
    | (some .completed, machine) => untilExit action rounds machine
    | (some .exited, machine) => (some .completed, machine)
    | other => other

/-! ### Actions by cases -/

/-- Without a limit no budget is ever spent. -/
theorem counted_unlimited (action : Action) {machine : Machine} (unlimited : machine.limit = none) :
    counted action machine = action machine.count := by
  simp [counted, Machine.exceeded?, Machine.count, unlimited]

theorem withValue_ok {value : Expr} {result : Float} (action : Float → Action) (machine : Machine)
    (evaluates : value.eval machine.store = .ok result) :
    withValue value action machine = action result machine := by
  rw [withValue, evaluates]

theorem withValue_error {value : Expr} {cause : RunError} (action : Float → Action)
    (machine : Machine) (fails : value.eval machine.store = .error cause) :
    withValue value action machine = (some (.failed cause), machine) := by
  rw [withValue, fails]

/-- A loop that ends does so after a completed round, or in its first one by an exit or an error. -/
theorem untilExit_cases {action : Action} {rounds : Nat} {machine final : Machine}
    {outcome : Outcome} (ran : untilExit action (rounds + 1) machine = (some outcome, final)) :
    (∃ middle, action machine = (some .completed, middle) ∧
      untilExit action rounds middle = (some outcome, final)) ∨
    (action machine = (some .exited, final) ∧ outcome = .completed) ∨
    ∃ cause, action machine = (some (.failed cause), final) ∧ outcome = .failed cause := by
  rw [untilExit] at ran
  split at ran
  · exact .inl ⟨_, ‹_›, ran⟩
  · rename_i left exited
    cases ran
    exact .inr (.inl ⟨exited, rfl⟩)
  · rename_i notCompleted notExited
    cases outcome with
    | completed => exact absurd ran (notCompleted final)
    | exited => exact absurd ran (notExited final)
    | failed cause => exact .inr (.inr ⟨cause, ran, rfl⟩)

end Action
end LoopLang
