import LoopLang.Machine.Run

/-! Runs without a bound on their rounds. A statement ends when some number of rounds is enough for
its loops, and more rounds than that change nothing; otherwise it goes on forever. What it prints
is what any number of rounds brings out, so a run that never ends prints as well. -/
namespace LoopLang

namespace Action
variable {action first second : Action} {machine final : Machine} {outcome : Outcome}

/-- Whatever ends the first action ends the second one in the same way. -/
def Extends (second first : Action) : Prop :=
  ∀ machine outcome final, first machine = (some outcome, final) →
    second machine = (some outcome, final)

private theorem counted_extends (longer : second.Extends first) :
    (counted second).Extends (counted first) := by
  intro machine outcome final ran
  cases exceeded : machine.count.exceeded? with
  | some limit =>
    simp only [counted, exceeded] at ran ⊢
    exact ran
  | none =>
    simp only [counted, exceeded] at ran ⊢
    exact longer _ _ _ ran

private theorem with_value_extends {first second : Float → Action} (value : Expr)
    (longer : ∀ result, (second result).Extends (first result)) :
    (withValue value second).Extends (withValue value first) := by
  intro machine outcome final ran
  simp only [withValue] at ran ⊢
  split at ran
  · exact longer _ _ _ _ ran
  · exact ran

private theorem and_then_extends {firstNext secondNext : Action} (longer : second.Extends first)
    (longerNext : secondNext.Extends firstNext) :
    (andThen second secondNext).Extends (andThen first firstNext) := by
  intro machine outcome final ran
  simp only [andThen] at ran
  split at ran
  · rename_i middle completed
    rw [andThen, longer _ _ _ completed]
    exact longerNext _ _ _ ran
  · rename_i notCompleted
    rw [andThen, longer _ _ _ ran]
    cases outcome with
    | completed => exact absurd ran (notCompleted final)
    | exited => rfl
    | failed cause => rfl

private theorem until_exit_extends (longer : second.Extends first) (rounds more : Nat)
    (enough : rounds ≤ more) : (untilExit second more).Extends (untilExit first rounds) := by
  induction rounds generalizing more with
  | zero =>
    intro machine outcome final ran
    simp [untilExit] at ran
  | succ rounds ih =>
    intro machine outcome final ran
    obtain ⟨more, rfl⟩ : ∃ fewer, more = fewer + 1 := ⟨more - 1, by omega⟩
    simp only [untilExit] at ran
    split at ran
    · rename_i middle completed
      rw [untilExit, longer _ _ _ completed]
      exact ih more (by omega) _ _ _ ran
    · rename_i left exited
      rw [untilExit, longer _ _ _ exited]
      exact ran
    · rename_i notCompleted notExited
      rw [untilExit, longer _ _ _ ran]
      cases outcome with
      | completed => exact absurd ran (notCompleted final)
      | exited => exact absurd ran (notExited final)
      | failed cause => rfl

end Action

namespace Stmt
open LoopLang.Action

mutual

/-- More rounds leave an ending as it is. -/
theorem exec_extends (rounds more : Nat) (enough : rounds ≤ more) (stmt : Stmt) :
    (stmt.exec more).Extends (stmt.exec rounds) := by
  cases stmt with
  | block body => exact counted_extends (execBody_extends rounds more enough body)
  | branch comparison lhs rhs ifTrue ifFalse =>
    apply counted_extends
    apply with_value_extends
    intro left
    apply with_value_extends
    intro right machine outcome final ran
    cases holds : comparison.holds left right with
    | true =>
      simp only [holds, if_true] at ran ⊢
      exact exec_extends rounds more enough ifTrue _ _ _ ran
    | false =>
      simp only [holds, Bool.false_eq_true, if_false] at ran ⊢
      exact exec_extends rounds more enough ifFalse _ _ _ ran
  | loop body =>
    exact counted_extends (until_exit_extends (exec_extends rounds more enough body) _ _ enough)
  | _ => exact fun machine outcome final ran => ran

theorem execBody_extends (rounds more : Nat) (enough : rounds ≤ more) (body : List Stmt) :
    (execBody more body).Extends (execBody rounds body) := by
  cases body with
  | nil => exact fun machine outcome final ran => ran
  | cons stmt rest =>
    exact and_then_extends (exec_extends rounds more enough stmt)
      (execBody_extends rounds more enough rest)

end

/-- The statement ends like this and leaves this machine behind. -/
def Ends (stmt : Stmt) (machine : Machine) (outcome : Outcome) (final : Machine) : Prop :=
  ∃ rounds, stmt.exec rounds machine = (some outcome, final)

/-- The statement goes on forever. -/
def Endless (stmt : Stmt) (machine : Machine) : Prop :=
  ∀ rounds, (stmt.exec rounds machine).1 = none

/-- The machine captures this text at some time of the run, as all of its output or the start of it. -/
def Prints (stmt : Stmt) (machine : Machine) (text : String) : Prop :=
  ∃ rounds, text.toList <+: (stmt.exec rounds machine).2.printer.output.toList

/-- A run has one ending. -/
theorem ends_unique {stmt : Stmt} {machine final other : Machine} {outcome another : Outcome}
    (ends : stmt.Ends machine outcome final) (endsToo : stmt.Ends machine another other) :
    outcome = another ∧ final = other := by
  obtain ⟨rounds, ran⟩ := ends
  obtain ⟨more, ranToo⟩ := endsToo
  have longer := exec_extends rounds (max rounds more) (Nat.le_max_left ..) stmt _ _ _ ran
  have longerToo := exec_extends more (max rounds more) (Nat.le_max_right ..) stmt _ _ _ ranToo
  simpa using longer.symm.trans longerToo

/-- A run ends, or it goes on forever. -/
theorem endless_iff (stmt : Stmt) (machine : Machine) :
    stmt.Endless machine ↔ ¬ ∃ outcome final, stmt.Ends machine outcome final := by
  constructor
  · rintro endless ⟨outcome, final, rounds, ran⟩
    simpa [ran] using endless rounds
  · intro never rounds
    cases ran : stmt.exec rounds machine with
    | mk ending final =>
      cases ending with
      | none => rfl
      | some outcome => exact absurd ⟨outcome, final, rounds, ran⟩ never

end Stmt
end LoopLang
