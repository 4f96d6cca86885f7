import LoopLang.Machine
import LoopLang.Stmt.StrayExit

/-! Execution. A statement is counted, then does its work: operands are evaluated before anything
changes, a block stops at the first statement that does not complete, a conditional runs one branch,
and a loop takes in the exit that ends it. A program that ends by an exit had no loop left to take it
in, which is an error of the run; a checked run looks for such exits first and starts nothing when it
finds one. A machine keeps its store, its output and its count after a run, however the run ended. -/
namespace LoopLang

namespace Stmt

mutual

/-- The action of a statement in which every loop is given so many rounds. -/
def exec (rounds : Nat) : Stmt → Action
  | block body => .counted (execBody rounds body)
  | assign name value => .counted <| .withValue value fun result machine =>
      (some .completed, machine.assign name result)
  | branch comparison lhs rhs ifTrue ifFalse => .counted <|
      .withValue lhs fun left => .withValue rhs fun right machine =>
        if comparison.holds left right then ifTrue.exec rounds machine
        else ifFalse.exec rounds machine
  | loop body => .counted (.untilExit (body.exec rounds) rounds)
  | exit => .counted (.ended .exited)
  | print value => .counted <| .withValue value fun result machine =>
      (some .completed, machine.println (Printer.valueText result))

/-- The action of statements in sequence. -/
def execBody (rounds : Nat) : List Stmt → Action
  | [] => .ended .completed
  | stmt :: rest => .andThen (stmt.exec rounds) (execBody rounds rest)

end

end Stmt

/-! ### Whole runs -/

/-- Why a checked run did not end well. -/
inductive Refusal where
  /-- The program was not started. -/
  | stray (stray : StrayExit)
  /-- The program stopped with an error. -/
  | failed (cause : RunError)
deriving DecidableEq, Repr

/-- What an outcome means at the end of a program. -/
def Outcome.atEnd : Outcome → Except RunError Unit
  | completed => .ok ()
  | exited => .error .exitOutsideLoop
  | failed cause => .error cause

namespace Machine

/-- Executes one statement. -/
def exec (machine : Machine) (stmt : Stmt) : Option (Outcome × Machine) :=
  match stmt.exec machine.rounds machine with
  | (some outcome, machine) => some (outcome, machine)
  | (none, _) => none

/-- An execution ends like this when its rounds are enough for it. -/
theorem exec_eq_some_iff {machine final : Machine} {stmt : Stmt} {outcome : Outcome} :
    machine.exec stmt = some (outcome, final) ↔
      stmt.exec machine.rounds machine = (some outcome, final) := by
  rw [exec]
  rcases stmt.exec machine.rounds machine with ⟨_ | ended, left⟩ <;> simp

/-- Runs a program. -/
def run (machine : Machine) (program : Stmt) : Option (Except RunError Unit × Machine) :=
  (machine.exec program).map fun (outcome, machine) => (outcome.atEnd, machine)

/-- Runs a program unless it has an exit outside every loop. -/
def runChecked (machine : Machine) (program : Stmt) : Option (Except Refusal Unit × Machine) :=
  match program.strayExit? with
  | some stray => some (.error (.stray stray), machine)
  | none => (machine.run program).map fun (ending, machine) => (ending.mapError .failed, machine)

end Machine
end LoopLang
