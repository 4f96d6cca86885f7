import LoopLang.Printer
import LoopLang.Store
import LoopLang.Proofs.JavaGrammar

/-! Java programs at work, one step at a time. What is still to be done is a list of tasks with the
next one in front. A loop leaves a mark behind its body, where its condition is tried again, and a
`break` drops everything up to the nearest mark. Names with points are those of the library of Java.
What has no meaning here, such as the use of a variable that is not declared, cannot be done. -/
namespace LoopLang.Java

/-! ### Expressions -/

/-- What an operator makes of two doubles. A zero divisor is as good as any other; a test makes no double. -/
def Sign.apply? : Sign → Float → Float → Option Float
  | plus, left, right => some (left + right)
  | minus, left, right => some (left - right)
  | times, left, right => some (left * right)
  | divided, left, right => some (left / right)
  | equal, _, _ | unequal, _, _ | less, _, _ | atMost, _, _ | greater, _, _ | atLeast, _, _ => none

/-- Whether two doubles pass the test of an operator. Arithmetic tests nothing. -/
def Sign.holds? : Sign → Float → Float → Option Bool
  | equal, left, right => some (left == right)
  | unequal, left, right => some (left != right)
  | less, left, right => some (decide (left < right))
  | atMost, left, right => some (decide (left ≤ right))
  | greater, left, right => some (decide (left > right))
  | atLeast, left, right => some (decide (left ≥ right))
  | plus, _, _ | minus, _, _ | times, _, _ | divided, _, _ => none

/-- The fields of the library, by their bits. -/
def fields : List (List String × Float) :=
  [(["Double", "NaN"], Float.ofBits 0x7FF8000000000000),
    (["Double", "POSITIVE_INFINITY"], Float.ofBits 0x7FF0000000000000),
    (["Double", "NEGATIVE_INFINITY"], Float.ofBits 0xFFF0000000000000)]

/-- The value of a name: a variable has no point in it. -/
def named? (values : Store) : List String → Option Float
  | [name] => values.get? name
  | parts => fields.lookup parts

/-- What a method returns for its arguments. -/
def called? (parts : List String) : List Float → Option Float
  | [base, exponent] => if parts = ["Math", "pow"] then some (base ^ exponent) else none
  | _ => none

mutual

/-- The value of an expression over declared variables, if it is a double. -/
def Term.number? (values : Store) : Term → Option Float
  | .truth => none
  | .literal value => some value.toFloat
  | .name parts => named? values parts
  | .call parts given => do
    let given ← numbers? values given
    called? parts given
  | .negative operand => do
    let value ← operand.number? values
    return -value
  | .binary sign lhs rhs => do
    let left ← lhs.number? values
    let right ← rhs.number? values
    sign.apply? left right

/-- The values of arguments, from left to right. -/
def numbers? (values : Store) : List Term → Option (List Float)
  | [] => some []
  | first :: others => do
    let value ← first.number? values
    let rest ← numbers? values others
    return value :: rest

end

/-- Whether a condition holds, if it is one. -/
def Term.holds? (values : Store) : Term → Option Bool
  | .truth => some true
  | .binary sign lhs rhs => do
    let left ← lhs.number? values
    let right ← rhs.number? values
    sign.holds? left right
  | _ => none

/-- The line that a call prints, if it prints one. -/
def Term.line? (values : Store) : Term → Option String
  | .call parts [argument] =>
    if parts = ["System", "out", "println"] then (argument.number? values).map Printer.valueText
    else none
  | _ => none

/-! ### Statements -/

/-- What a running program has produced. -/
structure State where
  /-- The declared variables with their values. -/
  values : Store
  printed : String

namespace State

/-- Gives a declared variable a new value. -/
def assign (state : State) (name : String) (value : Float) : Option State :=
  if state.values.contains name then some { state with values := state.values.insert name value }
  else none

/-- Prints a line. -/
def println (state : State) (line : String) : State :=
  { state with printed := (state.printed ++ line).push '\n' }

end State

/-- Something still to be done. -/
inductive Task where
  | run (tree : Tree)
  /-- The mark behind the body of a loop. -/
  | again (test : Term) (body : Tree)

namespace Task

/-- What is left to be done behind the nearest loop. -/
def afterLoop : List Task → Option (List Task)
  | [] => none
  | run _ :: rest => afterLoop rest
  | again _ _ :: rest => some rest

@[simp] theorem afterLoop_run (body : List Tree) (rest : List Task) :
    afterLoop (body.map run ++ rest) = afterLoop rest := by
  induction body with
  | nil => rfl
  | cons tree body ih => exact ih

end Task

/-- A program between two steps. -/
structure Config where
  tasks : List Task
  state : State

/-- The first step of a statement that stands before other tasks. -/
def Tree.start (state : State) (rest : List Task) : Tree → Option Config
  | block body => some ⟨body.map .run ++ rest, state⟩
  | assign name value => do
    let result ← value.number? state.values
    let state ← state.assign name result
    return ⟨rest, state⟩
  | perform call => do
    let line ← call.line? state.values
    return ⟨rest, state.println line⟩
  | ifThen test ifTrue => do
    let holds ← test.holds? state.values
    return ⟨if holds then .run ifTrue :: rest else rest, state⟩
  | ifElse test ifTrue ifFalse => do
    let holds ← test.holds? state.values
    return ⟨.run (if holds then ifTrue else ifFalse) :: rest, state⟩
  | whileLoop test body => some ⟨.again test body :: rest, state⟩
  | leave => do
    let rest ← Task.afterLoop rest
    return ⟨rest, state⟩

namespace Config

/-- The next step, if there is one. -/
def step (config : Config) : Option Config :=
  match config.tasks with
  | [] => none
  | .run tree :: rest => tree.start config.state rest
  | .again test body :: rest => do
    let holds ← test.holds? config.state.values
    return ⟨if holds then .run body :: .again test body :: rest else rest, config.state⟩

/-- Where so many steps lead. -/
def after (config : Config) : Nat → Option Config
  | 0 => some config
  | steps + 1 => config.step.bind fun next => next.after steps

variable {config next reached : Config} {steps : Nat}

theorem after_succ (stepped : config.step = some next) (steps : Nat) :
    config.after (steps + 1) = next.after steps := by
  rw [after, stepped, Option.bind_some]

/-- Steps follow one another. -/
theorem after_add (first second : Nat) :
    config.after (first + second) = (config.after first).bind fun middle => middle.after second := by
  induction first generalizing config with
  | zero => rw [Nat.zero_add, after, Option.bind_some]
  | succ first ih =>
    rw [Nat.succ_add, after, after, Option.bind_assoc]
    exact Option.bind_congr fun next _ => ih

/-- A step keeps what has been printed. -/
private theorem printed_step (stepped : config.step = some next) :
    config.state.printed.toList <+: next.state.printed.toList := by
  obtain ⟨tasks, state⟩ := config
  cases tasks with
  | nil => cases stepped
  | cons task rest =>
    cases task with
    | again test body =>
      obtain ⟨holds, -, same⟩ := Option.bind_eq_some_iff.mp stepped
      cases same
      exact List.prefix_refl _
    | run tree =>
      cases tree with
      | block body =>
        cases stepped
        exact List.prefix_refl _
      | assign name value =>
        obtain ⟨result, -, assigns⟩ := Option.bind_eq_some_iff.mp stepped
        obtain ⟨after, assigned, same⟩ := Option.bind_eq_some_iff.mp assigns
        cases same
        simp only [State.assign, Option.ite_none_right_eq_some] at assigned
        cases assigned.2
        exact List.prefix_refl _
      | perform call =>
        obtain ⟨line, -, same⟩ := Option.bind_eq_some_iff.mp stepped
        cases same
        simp [State.println]
      | whileLoop test body =>
        cases stepped
        exact List.prefix_refl _
      | _ =>
        obtain ⟨found, -, same⟩ := Option.bind_eq_some_iff.mp stepped
        cases same
        exact List.prefix_refl _

/-- Printed text stays. -/
theorem printed_after (led : config.after steps = some reached) :
    config.state.printed.toList <+: reached.state.printed.toList := by
  induction steps generalizing config with
  | zero =>
    cases led
    exact List.prefix_refl _
  | succ steps ih =>
    obtain ⟨next, stepped, goesOn⟩ := Option.bind_eq_some_iff.mp led
    exact (printed_step stepped).trans (ih goesOn)

/-- A run that gets so far was at each earlier point too. -/
theorem after_earlier {later : Nat} (led : config.after later = some reached)
    (earlier : steps ≤ later) : ∃ middle, config.after steps = some middle ∧
      middle.state.printed.toList <+: reached.state.printed.toList := by
  obtain ⟨more, rfl⟩ := Nat.exists_eq_add_of_le earlier
  rw [after_add] at led
  obtain ⟨middle, there, goesOn⟩ := Option.bind_eq_some_iff.mp led
  exact ⟨middle, there, printed_after goesOn⟩

/-- A run that ends has passed every point it gets to. -/
theorem printed_before_end {last : Nat} {state : State} (led : config.after steps = some reached)
    (ended : config.after last = some ⟨[], state⟩) :
    reached.state.printed.toList <+: state.printed.toList := by
  by_cases before : steps ≤ last
  · obtain ⟨middle, there, grows⟩ := after_earlier ended before
    cases led.symm.trans there
    exact grows
  · obtain ⟨more, rfl⟩ := Nat.exists_eq_add_of_lt (Nat.lt_of_not_le before)
    rw [Nat.add_assoc, after_add, ended] at led
    simp [after, step] at led

end Config

/-! ### Programs -/

/-- Declares variables in order, each with the value that it is given. -/
def declare (values : Store) : List (String × Term) → Option Store
  | [] => some values
  | (name, initial) :: rest => do
    let value ← initial.number? values
    declare (values.insert name value) rest

namespace ProgramTree

/-- The program behind its declarations, before anything is printed. -/
def start? (program : ProgramTree) : Option Config := do
  let values ← declare ∅ program.declared
  return ⟨program.body.map .run, values, ""⟩

/-- Where so many steps of the program lead. -/
def after (program : ProgramTree) (steps : Nat) : Option Config :=
  program.start?.bind fun config => config.after steps

/-- The program comes to its end in this state. -/
def Finishes (program : ProgramTree) (state : State) : Prop :=
  ∃ steps, program.after steps = some ⟨[], state⟩

/-- The program gets into this state at some time. -/
def Reaches (program : ProgramTree) (state : State) : Prop :=
  ∃ steps tasks, program.after steps = some ⟨tasks, state⟩

/-- The program never comes to an end: every number of steps can be taken. -/
def Endless (program : ProgramTree) : Prop := ∀ steps, (program.after steps).isSome

/-- The program starts, and wherever it gets, it is at its end or can go on. -/
def NeverStuck (program : ProgramTree) : Prop :=
  ∃ start, program.start? = some start ∧ ∀ steps config, start.after steps = some config →
    config.tasks = [] ∨ config.step.isSome

/-- The program prints this text at some time, as all of its output or the start of it. -/
def Prints (program : ProgramTree) (text : String) : Prop :=
  ∃ state, program.Reaches state ∧ text.toList <+: state.printed.toList

end ProgramTree
end LoopLang.Java
