import LoopLang.Proofs.Mentions
import LoopLang.Proofs.NaturalSemantics
import LoopLang.Proofs.Starts

/-! What a run does, one event after another. A statement is started, a variable is given a value, or a
value is printed, and nothing else ever happens to a machine: after a run it is what its events make of
it. Which events come about depends on the names that a program reads, so two runs are compared by
comparing their events. -/
namespace LoopLang

/-- A single thing that a run does. -/
inductive Event where
  /-- A statement was started. -/
  | started
  /-- A variable was given a value. -/
  | assigned (name : String) (value : Float)
  /-- A value was printed. -/
  | printed (value : Float)

namespace Event

/-- The write to the store that an event is. -/
def write? : Event → Option (String × Float)
  | assigned name value => some (name, value)
  | started | printed _ => none

/-- The line that an event prints. -/
def line? : Event → Option String
  | printed value => some (Printer.valueText value)
  | started | assigned _ _ => none

/-- Whether the event is the start of a statement. -/
def isStart : Event → Bool
  | started => true
  | assigned _ _ | printed _ => false

end Event

namespace Machine

/-- The machine after one event. -/
def happen (machine : Machine) : Event → Machine
  | .started => machine.count
  | .assigned name value => machine.assign name value
  | .printed value => machine.println (Printer.valueText value)

/-- The machine after events in order. -/
def after (machine : Machine) (events : List Event) : Machine := events.foldl happen machine

/-- The same machine with another store. -/
def withStore (machine : Machine) (store : Store) : Machine := { machine with store }

variable {machine : Machine}

@[simp] theorem after_nil (machine : Machine) : machine.after [] = machine := rfl

@[simp] theorem after_cons (machine : Machine) (event : Event) (later : List Event) :
    machine.after (event :: later) = (machine.happen event).after later := rfl

theorem after_append (machine : Machine) (events later : List Event) :
    machine.after (events ++ later) = (machine.after events).after later := List.foldl_append

/-- Events leave the store with their writes put in. -/
theorem after_store (machine : Machine) (events : List Event) :
    (machine.after events).store = machine.store.insertAll (events.filterMap Event.write?) := by
  induction events generalizing machine with
  | nil => rfl
  | cons event later ih =>
    rw [after_cons, ih]
    cases event <;> rfl

/-- Events leave the printer with their lines printed. -/
theorem after_printer (machine : Machine) (events : List Event) :
    (machine.after events).printer = machine.printer.printLines (events.filterMap Event.line?) := by
  induction events generalizing machine with
  | nil => rfl
  | cons event later ih =>
    rw [after_cons, ih]
    cases event <;> rfl

/-- Events leave the counter with their starts counted, as far as it can count. -/
theorem after_steps (within : machine.steps ≤ maxSteps) (events : List Event) :
    (machine.after events).steps = min (machine.steps + events.countP Event.isStart) maxSteps := by
  induction events generalizing machine with
  | nil => exact (Nat.min_eq_left within).symm
  | cons event later ih =>
    rw [after_cons, List.countP_cons]
    cases event with
    | started =>
      have counted : (machine.happen .started).steps = min (machine.steps + 1) maxSteps := rfl
      rw [ih (Nat.min_le_right ..), counted]
      simp only [Event.isStart, if_true]
      omega
    | _ => exact ih within

/-- The same events happen to a machine with another store. -/
theorem withStore_after (machine : Machine) (store : Store) (events : List Event) :
    (machine.withStore store).after events =
      (machine.after events).withStore (store.insertAll (events.filterMap Event.write?)) := by
  induction events generalizing machine store with
  | nil => rfl
  | cons event later ih =>
    cases event with
    | started => exact ih machine.count store
    | assigned name value => exact ih (machine.assign name value) (store.insert name value)
    | printed value => exact ih (machine.println (Printer.valueText value)) store

end Machine

/-! ### Actions and their events -/

/-- An action with the events that it brings about, which are all that it does to a machine. -/
structure Traced where
  action : Action
  events : Machine → List Event
  happens : ∀ machine, (action machine).2 = machine.after (events machine)

namespace Traced

/-- Does nothing. It ends in the given way or not at all. -/
def still (ending : Option Outcome) : Traced where
  action machine := (ending, machine)
  events _ := []
  happens _ := rfl

/-- Binds a variable. -/
def assign (name : String) (value : Float) : Traced where
  action machine := (some .completed, machine.assign name value)
  events _ := [.assigned name value]
  happens _ := rfl

/-- Prints a value. -/
def print (value : Float) : Traced where
  action machine := (some .completed, machine.println (Printer.valueText value))
  events _ := [.printed value]
  happens _ := rfl

/-- Counts a start, and goes on if the budget allows for it. -/
def counted (traced : Traced) : Traced where
  action := .counted traced.action
  events machine :=
    .started :: if machine.count.exceeded?.isSome then [] else traced.events machine.count
  happens machine := by
    rw [Action.counted, Machine.after_cons]
    cases exceeded : machine.count.exceeded? with
    | some limit => rfl
    | none => exact traced.happens machine.count

/-- Goes on with the value of an expression, if it has one. -/
def withValue (value : Expr) (traced : Float → Traced) : Traced where
  action := .withValue value fun result => (traced result).action
  events machine :=
    match value.eval machine.store with
    | .ok result => (traced result).events machine
    | .error _ => []
  happens machine := by
    rw [Action.withValue]
    cases value.eval machine.store with
    | ok result => exact (traced result).happens machine
    | error cause => rfl

/-- The second one follows if the first one completes. -/
def andThen (first second : Traced) : Traced where
  action := .andThen first.action second.action
  events machine := first.events machine ++
    match first.action machine with
    | (some .completed, middle) => second.events middle
    | _ => []
  happens machine := by
    have before := first.happens machine
    rw [Action.andThen, Machine.after_append, ← before]
    rcases first.action machine with ⟨_ | outcome, middle⟩
    · rfl
    · cases outcome with
      | completed => exact second.happens middle
      | _ => rfl

/-- Takes in an exit, as a loop does. -/
def takeExit (traced : Traced) : Traced where
  action := Action.takeExit traced.action
  events := traced.events
  happens := traced.happens

/-- Repeats itself until it exits, for at most the given number of rounds. -/
def untilExit (traced : Traced) : Nat → Traced
  | 0 => still none
  | rounds + 1 => (traced.andThen (untilExit traced rounds)).takeExit

theorem untilExit_action (traced : Traced) (rounds : Nat) :
    (traced.untilExit rounds).action = Action.untilExit traced.action rounds := by
  induction rounds with
  | zero => rfl
  | succ rounds ih =>
    rw [Action.untilExit_succ, ← ih]
    rfl

variable {first : Traced}

/-- When the budget is spent, the start is all that happens. -/
theorem counted_spent (machine : Machine) (traced : Traced) {limit : Nat}
    (exceeded : machine.count.exceeded? = some limit) :
    (traced.counted.action machine).1 = some (.failed (.budgetExhausted limit)) ∧
      traced.counted.events machine = [.started] := by
  simp [counted, Action.counted, exceeded]

/-- Otherwise the start comes first. -/
theorem counted_free (machine : Machine) (traced : Traced) (free : machine.count.exceeded? = none) :
    (traced.counted.action machine).1 = (traced.action machine.count).1 ∧
      traced.counted.events machine = .started :: traced.events machine.count := by
  simp [counted, Action.counted, free]

theorem withValue_ok (machine : Machine) {value : Expr} {result : Float} (traced : Float → Traced)
    (evaluates : value.eval machine.store = .ok result) :
    ((withValue value traced).action machine).1 = ((traced result).action machine).1 ∧
      (withValue value traced).events machine = (traced result).events machine := by
  simp [withValue, Action.withValue, evaluates]

theorem withValue_error (machine : Machine) {value : Expr} {cause : RunError} (traced : Float → Traced)
    (fails : value.eval machine.store = .error cause) :
    ((withValue value traced).action machine).1 = some (.failed cause) ∧
      (withValue value traced).events machine = [] := by
  simp [withValue, Action.withValue, fails]

/-- Behind a first one that completes, the second one goes on from where it led. -/
theorem andThen_completed (machine : Machine) (second : Traced)
    (completed : (first.action machine).1 = some .completed) :
    ((first.andThen second).action machine).1 =
        (second.action (machine.after (first.events machine))).1 ∧
      (first.andThen second).events machine =
        first.events machine ++ second.events (machine.after (first.events machine)) := by
  have there : first.action machine = (some .completed, machine.after (first.events machine)) :=
    Prod.ext completed (first.happens machine)
  simp only [andThen, Action.andThen, there, and_self]

/-- Behind a first one that does not complete, nothing follows. -/
theorem andThen_stopped (machine : Machine) (second : Traced)
    (stopped : (first.action machine).1 ≠ some .completed) :
    ((first.andThen second).action machine).1 = (first.action machine).1 ∧
      (first.andThen second).events machine = first.events machine := by
  simp only [andThen, Action.andThen]
  generalize first.action machine = ran at stopped
  obtain ⟨_ | outcome, middle⟩ := ran
  · exact ⟨rfl, List.append_nil _⟩
  · cases outcome with
    | completed => exact absurd rfl stopped
    | _ => exact ⟨rfl, List.append_nil _⟩

end Traced

namespace Stmt

mutual

/-- The action of a statement with its events, when every loop is given so many rounds. -/
def traced (rounds : Nat) : Stmt → Traced
  | block body => (bodyTraced rounds body).counted
  | assign name value => (Traced.withValue value (Traced.assign name)).counted
  | branch comparison lhs rhs ifTrue ifFalse =>
    (Traced.withValue lhs fun left => Traced.withValue rhs fun right =>
      if comparison.holds left right then ifTrue.traced rounds else ifFalse.traced rounds).counted
  | loop body => ((body.traced rounds).untilExit rounds).counted
  | exit => (Traced.still (some .exited)).counted
  | print value => (Traced.withValue value Traced.print).counted

/-- The same for statements in sequence. -/
def bodyTraced (rounds : Nat) : List Stmt → Traced
  | [] => Traced.still (some .completed)
  | stmt :: rest => (stmt.traced rounds).andThen (bodyTraced rounds rest)

end

mutual

/-- The traced action is the action of the statement. -/
theorem traced_action (rounds : Nat) (stmt : Stmt) :
    (stmt.traced rounds).action = stmt.exec rounds := by
  cases stmt with
  | block body => exact congrArg Action.counted (bodyTraced_action rounds body)
  | branch comparison lhs rhs ifTrue ifFalse =>
    refine congrArg Action.counted (congrArg (Action.withValue lhs) (funext fun left =>
      congrArg (Action.withValue rhs) (funext fun right => funext fun machine => ?_)))
    by_cases holds : comparison.holds left right = true
    · simp only [if_pos holds, traced_action rounds ifTrue]
    · simp only [if_neg holds, traced_action rounds ifFalse]
  | loop body =>
    rw [traced, exec, ← traced_action rounds body, ← Traced.untilExit_action]
    rfl
  | _ => rfl

theorem bodyTraced_action (rounds : Nat) (body : List Stmt) :
    (bodyTraced rounds body).action = execBody rounds body := by
  cases body with
  | nil => rfl
  | cons stmt rest =>
    rw [execBody, ← traced_action rounds stmt, ← bodyTraced_action rounds rest]
    rfl

end

/-- The events of a run in order. -/
def events (rounds : Nat) (stmt : Stmt) (machine : Machine) : List Event :=
  (stmt.traced rounds).events machine

/-- A run leaves the machine as its events make it. -/
theorem exec_after (rounds : Nat) (stmt : Stmt) (machine : Machine) :
    (stmt.exec rounds machine).2 = machine.after (stmt.events rounds machine) := by
  rw [← traced_action]
  exact (stmt.traced rounds).happens machine

/-- The first event of a run is the start of the statement. -/
theorem events_head (rounds : Nat) (stmt : Stmt) (machine : Machine) :
    ∃ later, stmt.events rounds machine = .started :: later := by
  cases stmt <;> exact ⟨_, rfl⟩

end Stmt

/-! ### Laws of statements by their names -/

/-- What holds of every statement that reads known variables only and assigns its own ones only,
because every way of putting actions together keeps it. -/
structure Law (known own : String → Prop) (Holds : Traced → Prop) : Prop where
  still {ending : Option Outcome} : (∀ cause, ending ≠ some (.failed cause)) → Holds (.still ending)
  assign {name : String} (value : Float) : own name → Holds (.assign name value)
  print (value : Float) : Holds (.print value)
  counted {traced : Traced} : Holds traced → Holds traced.counted
  withValue {value : Expr} {traced : Float → Traced} :
    (∀ name, value.Mentions name → known name) → (∀ result, Holds (traced result)) →
    Holds (.withValue value traced)
  andThen {first second : Traced} : Holds first → Holds second → Holds (first.andThen second)
  takeExit {traced : Traced} : Holds traced → Holds traced.takeExit

namespace Law
variable {known own : String → Prop} {Holds : Traced → Prop}

/-- A loop is made of its rounds. -/
private theorem untilExit (law : Law known own Holds) {traced : Traced} (holds : Holds traced)
    (rounds : Nat) :
    Holds (traced.untilExit rounds) := by
  induction rounds with
  | zero => exact law.still (by simp)
  | succ rounds ih => exact law.takeExit (law.andThen holds ih)

mutual

theorem stmt (law : Law known own Holds) (rounds : Nat) (stmt : Stmt)
    (reads : ∀ name, stmt.Reads name → known name) (assigns : ∀ name, stmt.Assigns name → own name) :
    Holds (stmt.traced rounds) := by
  cases stmt with
  | block body => exact law.counted (law.body rounds body reads assigns)
  | assign name value =>
    exact law.counted (law.withValue reads fun result => law.assign result (assigns name rfl))
  | branch comparison lhs rhs ifTrue ifFalse =>
    have left : ∀ name, lhs.Mentions name → known name := fun name read => reads name (.inl read)
    have right : ∀ name, rhs.Mentions name → known name :=
      fun name read => reads name (.inr (.inl read))
    refine law.counted (law.withValue left fun left => law.withValue right fun right => ?_)
    split
    · exact law.stmt rounds ifTrue (fun name read => reads name (.inr (.inr (.inl read))))
        fun name assigned => assigns name (.inl assigned)
    · exact law.stmt rounds ifFalse (fun name read => reads name (.inr (.inr (.inr read))))
        fun name assigned => assigns name (.inr assigned)
  | loop body => exact law.counted (law.untilExit (law.stmt rounds body reads assigns) rounds)
  | exit => exact law.counted (law.still (by simp))
  | print value => exact law.counted (law.withValue reads law.print)

theorem body (law : Law known own Holds) (rounds : Nat) (body : List Stmt)
    (reads : ∀ name, Stmt.BodyReads name body → known name)
    (assigns : ∀ name, Stmt.BodyAssigns name body → own name) :
    Holds (Stmt.bodyTraced rounds body) := by
  cases body with
  | nil => exact law.still (by simp)
  | cons stmt rest =>
    exact law.andThen
      (law.stmt rounds stmt (fun name read => reads name (.inl read))
        fun name assigned => assigns name (.inl assigned))
      (law.body rounds rest (fun name read => reads name (.inr read))
        fun name assigned => assigns name (.inr assigned))

end

end Law
end LoopLang
