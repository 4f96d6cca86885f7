import LoopLang.Proofs.Prune
import LoopLang.Proofs.Starts

/-! What the check for stray exits promises. A statement without a stray exit offers no way out of a
loop around it, so no execution of it ends by an exit: whatever exits it has, inner loops take in. Nor
does an execution ever fail for an exit, with a check or without one. Expressions and a spent budget
have other causes, and it takes the end of a whole program to make an exit an error. -/
namespace LoopLang

/-- The value of an expression does not fail for an exit. -/
theorem Expr.eval_ne_exitOutsideLoop (store : Store) (value : Expr) :
    value.eval store ≠ .error .exitOutsideLoop := by
  induction value with
  | constant number => rintro ⟨⟩
  | var name =>
    intro failed
    cases (Store.lookup_eq_error_iff.mp failed).2
  | binary operator lhs rhs ihLeft ihRight =>
    rw [ne_eq, eval_binary_eq_error_iff]
    rintro (failed | ⟨left, -, failed | ⟨right, -, failed⟩⟩)
    · exact ihLeft failed
    · exact ihRight failed
    · cases (Operator.apply_eq_error_iff.mp failed).2.2

/-- The end of a program is an exit outside every loop if the program exited, or if it failed for one. -/
private theorem Outcome.atEnd_eq_exitOutsideLoop {outcome : Outcome} :
    outcome.atEnd = .error .exitOutsideLoop ↔
      outcome = .exited ∨ outcome = .failed .exitOutsideLoop := by
  cases outcome <;> simp [atEnd]

namespace Action

/-- From no machine does the action fail for an exit. -/
def FailsOtherwise (action : Action) (_ : Starts) : Prop :=
  ∀ machine, (action machine).1 ≠ some (.failed .exitOutsideLoop)

private theorem failsOtherwise_andThen {first second : Action} {starts next : Starts}
    (otherwise : FailsOtherwise first starts) (otherwiseNext : FailsOtherwise second next) :
    FailsOtherwise (andThen first second) (thenStarts first starts next) := by
  intro machine
  rcases andThen_cases first second machine with ⟨middle, -, ran⟩ | ⟨-, ran⟩
  · rw [ran]
    exact otherwiseNext middle
  · rw [ran]
    exact otherwise machine

private theorem failsOtherwise_takeExit {action : Action} {starts : Starts}
    (otherwise : FailsOtherwise action starts) : FailsOtherwise (takeExit action) starts := by
  intro machine failed
  obtain ⟨outcome, ran, ended⟩ := Option.map_eq_some_iff.mp failed
  cases outcome with
  | failed cause =>
    cases ended
    exact otherwise machine ran
  | _ => cases ended

private theorem failsOtherwise (rounds : Nat) : Compositional rounds FailsOtherwise where
  completed machine := by rintro ⟨⟩
  exited machine := by rintro ⟨⟩
  assign name value machine := by rintro ⟨⟩
  println line machine := by rintro ⟨⟩
  counted := by
    intro action starts otherwise machine
    rw [counted]
    cases machine.count.exceeded? with
    | some limit => rintro ⟨⟩
    | none => exact otherwise machine.count
  withValue value := by
    intro action starts otherwise machine
    cases evaluates : value.eval machine.store with
    | ok result =>
      rw [withValue_ok _ _ evaluates]
      exact otherwise result machine
    | error cause =>
      rw [withValue_error _ _ evaluates]
      rintro ⟨⟩
      exact value.eval_ne_exitOutsideLoop _ evaluates
  andThen := failsOtherwise_andThen
  loop body otherwise :=
    loop_by_rounds (fun machine => by rintro ⟨⟩) (failsOtherwise_andThen otherwise)
      failsOtherwise_takeExit rounds

end Action

namespace Stmt

mutual

/-- Without a stray exit there is no way out of a loop around the statement. -/
theorem exits_of_proper (stmt : Stmt) (proper : stmt.strayRoles? = none) : stmt.ways.exits = false := by
  cases stmt with
  | block body => exact bodyExits_of_proper 0 body proper
  | branch comparison lhs rhs ifTrue ifFalse =>
    obtain ⟨properTrue, properFalse⟩ := strayRoles?_branch_eq_none.mp proper
    simp [Ways.either, exits_of_proper ifTrue properTrue, exits_of_proper ifFalse properFalse]
  | exit => cases proper
  | _ => rfl

theorem bodyExits_of_proper (position : Nat) (body : List Stmt)
    (proper : bodyStrayRoles? position body = none) : (bodyWays body).exits = false := by
  cases body with
  | nil => rfl
  | cons stmt rest =>
    obtain ⟨properStmt, properRest⟩ := bodyStrayRoles?_cons_eq_none.mp proper
    simp [Ways.andThen, exits_of_proper stmt properStmt, bodyExits_of_proper _ rest properRest]

end

/-- A statement that passes the check does not end by an exit. -/
theorem not_exited_of_proper {stmt : Stmt} (proper : stmt.strayRoles? = none) (rounds : Nat)
    (machine final : Machine) : stmt.exec rounds machine ≠ (some .exited, final) := by
  intro exited
  have allowed : stmt.ways.exits = true := exec_within rounds stmt _ _ _ exited
  rw [exits_of_proper stmt proper] at allowed
  cases allowed

/-- No execution fails for an exit. -/
private theorem not_failed_for_exit (stmt : Stmt) (rounds : Nat) (machine final : Machine) :
    stmt.exec rounds machine ≠ (some (.failed .exitOutsideLoop), final) := by
  intro failed
  have otherwise := (Action.failsOtherwise rounds).exec stmt machine
  rw [failed] at otherwise
  exact otherwise rfl

/-- A run reports an exit outside every loop when its execution ends by an exit, and only then. -/
theorem run_eq_exitOutsideLoop {stmt : Stmt} {machine final : Machine} :
    machine.run stmt = some (.error .exitOutsideLoop, final) ↔
      machine.exec stmt = some (.exited, final) := by
  rw [Machine.run]
  constructor
  · intro reported
    obtain ⟨⟨outcome, left⟩, ran, ended⟩ := Option.map_eq_some_iff.mp reported
    obtain ⟨stray, rfl⟩ := Prod.mk.inj ended
    rcases Outcome.atEnd_eq_exitOutsideLoop.mp stray with rfl | rfl
    · exact ran
    · exact (not_failed_for_exit _ _ _ _ (Machine.exec_eq_some_iff.mp ran)).elim
  · intro exited
    rw [exited]
    rfl

/-- The check for stray exits is sound. What passes it never ends by an exit, so neither a run of it nor
a checked run reports an exit outside every loop, and a program whose run reports one does not pass.
Executing a statement never reports it, whether the statement passes or not. -/
theorem passed_check_keeps_exits_inside (stmt : Stmt) (machine : Machine) :
    (stmt.strayExit? = none → ∀ final,
      ¬ stmt.Ends machine .exited final ∧
      machine.exec stmt ≠ some (.exited, final) ∧
      machine.run stmt ≠ some (.error .exitOutsideLoop, final)) ∧
    (∀ final, machine.runChecked stmt ≠ some (.error (.failed .exitOutsideLoop), final)) ∧
    (∀ final, machine.run stmt = some (.error .exitOutsideLoop, final) →
      ∃ stray, stmt.strayExit? = some stray) ∧
    (∀ final, ¬ stmt.Ends machine (.failed .exitOutsideLoop) final) ∧
    (∀ final, machine.exec stmt ≠ some (.failed .exitOutsideLoop, final)) ∧
    ∀ final, machine.run stmt = some (.error .exitOutsideLoop, final) ↔
      machine.exec stmt = some (.exited, final) := by
  have inside (passed : stmt.strayExit? = none) (final : Machine) :
      machine.exec stmt ≠ some (.exited, final) := fun exited =>
    not_exited_of_proper (strayExit?_eq_none.mp passed) _ _ _ (Machine.exec_eq_some_iff.mp exited)
  refine ⟨?_, ?_, ?_, ?_, ?_, fun final => run_eq_exitOutsideLoop⟩
  · intro passed final
    refine ⟨?_, inside passed final, fun reported => ?_⟩
    · rintro ⟨rounds, exited⟩
      exact not_exited_of_proper (strayExit?_eq_none.mp passed) _ _ _ exited
    · exact inside passed final (run_eq_exitOutsideLoop.mp reported)
  · intro final reported
    rw [Machine.runChecked] at reported
    cases passed : stmt.strayExit? with
    | some stray => simp [passed] at reported
    | none =>
      simp only [passed] at reported
      obtain ⟨⟨ending, left⟩, ran, ended⟩ := Option.map_eq_some_iff.mp reported
      obtain ⟨stray, rfl⟩ := Prod.mk.inj ended
      cases ending with
      | ok done => cases stray
      | error cause =>
        cases stray
        exact inside passed _ (run_eq_exitOutsideLoop.mp ran)
  · intro final reported
    cases passed : stmt.strayExit? with
    | some stray => exact ⟨stray, rfl⟩
    | none => exact absurd (run_eq_exitOutsideLoop.mp reported) (inside passed final)
  · rintro final ⟨rounds, failed⟩
    exact not_failed_for_exit _ _ _ _ failed
  · intro final failed
    exact not_failed_for_exit _ _ _ _ (Machine.exec_eq_some_iff.mp failed)

/-- The exits of a loop stay inside, and an exit alone is what a run reports and the check finds. -/
theorem exits_inside_and_outside :
    (∀ final, ¬ (block [loop (block [exit, exit])]).Ends ⟨Store.empty, .buffer "", none, 0⟩ .exited final) ∧
    Machine.run ⟨Store.empty, .buffer "", none, 0⟩ (block [exit]) =
      some (.error .exitOutsideLoop, ⟨Store.empty, .buffer "", none, 2⟩) ∧
    ∃ stray, (block [exit]).strayExit? = some stray := by
  have reported : Machine.run ⟨Store.empty, .buffer "", none, 0⟩ (block [exit]) =
      some (.error .exitOutsideLoop, ⟨Store.empty, .buffer "", none, 2⟩) := rfl
  refine ⟨fun final => ?_, reported, ?_⟩
  · exact ((passed_check_keeps_exits_inside _ _).1 rfl final).1
  · exact (passed_check_keeps_exits_inside _ _).2.2.1 _ reported

end Stmt
end LoopLang
