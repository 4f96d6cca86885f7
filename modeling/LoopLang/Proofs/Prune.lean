import LoopLang.Machine.Run
import LoopLang.Java.Layout

/-! What pruning cuts away is never missed. From every machine a statement ends only in the ways that
the analysis allows, so nothing behind a statement that cannot complete is ever started. A pruned
statement therefore runs as the original does, and it is written in the same way. -/
namespace LoopLang

/-- The analysis allows for this ending. An error can strike anywhere and is always allowed for. -/
def Ways.Allow (ways : Ways) : Outcome → Prop
  | .completed => ways.completes = true
  | .exited => ways.exits = true
  | .failed _ => True

namespace Action
variable {action first second : Action} {ways firstWays secondWays : Ways}

/-- From every machine the action ends in no other ways than these. -/
def Within (action : Action) (ways : Ways) : Prop :=
  ∀ machine outcome final, action machine = (some outcome, final) → ways.Allow outcome

private theorem counted_within (within : action.Within ways) : (counted action).Within ways := by
  intro machine outcome final ran
  simp only [counted] at ran
  split at ran
  · cases ran
    trivial
  · exact within _ _ _ ran

private theorem with_value_within {action : Float → Action} (value : Expr)
    (within : ∀ result, (action result).Within ways) : (withValue value action).Within ways := by
  intro machine outcome final ran
  simp only [withValue] at ran
  split at ran
  · exact within _ _ _ _ ran
  · cases ran
    trivial

/-- The first action lets the second one run only by completing; any other ending is its own. -/
theorem andThen_cases (first second : Action) (machine : Machine) :
    (∃ middle, first machine = (some .completed, middle) ∧ andThen first second machine = second middle) ∨
    ((first machine).1 ≠ some .completed ∧ andThen first second machine = first machine) := by
  simp only [andThen]
  split
  · exact .inl ⟨_, ‹_›, rfl⟩
  · rename_i other
    refine .inr ⟨fun completed => ?_, rfl⟩
    exact other (first machine).2 (Prod.ext completed rfl)

private theorem and_then_within (firstWithin : first.Within firstWays)
    (secondWithin : second.Within secondWays) :
    (andThen first second).Within (firstWays.andThen secondWays) := by
  intro machine outcome final ran
  rcases andThen_cases first second machine with ⟨middle, completed, goesOn⟩ | ⟨stops, same⟩
  · have passed : firstWays.completes = true := firstWithin _ _ _ completed
    have allowed := secondWithin _ _ _ (goesOn.symm.trans ran)
    cases outcome <;> simp_all [Ways.Allow, Ways.andThen]
  · have own := same.symm.trans ran
    have allowed := firstWithin _ _ _ own
    cases outcome <;> simp_all [Ways.Allow, Ways.andThen]

private theorem until_exit_within (within : action.Within ways) (rounds : Nat) :
    (untilExit action rounds).Within ways.repeated := by
  induction rounds with
  | zero =>
    intro machine outcome final ran
    simp [untilExit] at ran
  | succ rounds ih =>
    intro machine outcome final ran
    simp only [untilExit] at ran
    split at ran
    · exact ih _ _ _ ran
    · rename_i left
      cases ran
      exact within _ _ _ left
    · rename_i notCompleted notExited
      cases outcome with
      | completed => exact absurd ran (notCompleted final)
      | exited => exact absurd ran (notExited final)
      | failed cause => trivial

/-- What would follow an action that never completes does not matter. -/
private theorem andThen_unreached {other : Action} (within : first.Within ways)
    (ends : ways.completes = false) : andThen first second = andThen first other := by
  funext machine
  have never (following : Action) : andThen first following machine = first machine := by
    rcases andThen_cases first following machine with ⟨middle, completed, -⟩ | ⟨-, same⟩
    · have passed : ways.completes = true := within _ _ _ completed
      simp [ends] at passed
    · exact same
  rw [never, never]

end Action

namespace Stmt
open LoopLang.Action

mutual

/-- A statement ends only in the ways that the analysis finds for it. -/
theorem exec_within (rounds : Nat) (stmt : Stmt) : (stmt.exec rounds).Within stmt.ways := by
  cases stmt with
  | block body => exact counted_within (execBody_within rounds body)
  | assign name value =>
    apply counted_within
    apply with_value_within
    intro result machine outcome final ran
    cases ran
    rfl
  | branch comparison lhs rhs ifTrue ifFalse =>
    apply counted_within
    apply with_value_within
    intro left
    apply with_value_within
    intro right machine outcome final ran
    split at ran
    · have allowed := exec_within rounds ifTrue machine outcome final ran
      cases outcome <;> simp_all [Ways.Allow, Ways.either]
    · have allowed := exec_within rounds ifFalse machine outcome final ran
      cases outcome <;> simp_all [Ways.Allow, Ways.either]
  | loop body => exact counted_within (until_exit_within (exec_within rounds body) rounds)
  | exit =>
    apply counted_within
    intro machine outcome final ran
    cases ran
    rfl
  | print value =>
    apply counted_within
    apply with_value_within
    intro result machine outcome final ran
    cases ran
    rfl

theorem execBody_within (rounds : Nat) (body : List Stmt) :
    (execBody rounds body).Within (bodyWays body) := by
  cases body with
  | nil =>
    intro machine outcome final ran
    cases ran
    rfl
  | cons stmt rest =>
    rw [bodyWays_cons]
    exact and_then_within (exec_within rounds stmt) (execBody_within rounds rest)

end

mutual

/-- A pruned statement does exactly what the original does. -/
theorem exec_prune (rounds : Nat) (stmt : Stmt) : stmt.prune.exec rounds = stmt.exec rounds := by
  cases stmt with
  | block body => rw [prune_block, exec, exec, execBody_prune rounds body]
  | branch comparison lhs rhs ifTrue ifFalse =>
    rw [prune_branch, exec, exec, exec_prune rounds ifTrue, exec_prune rounds ifFalse]
  | loop body => rw [prune_loop, exec, exec, exec_prune rounds body]
  | _ => rfl

theorem execBody_prune (rounds : Nat) (body : List Stmt) :
    execBody rounds (pruneBody body) = execBody rounds body := by
  cases body with
  | nil => rfl
  | cons stmt rest =>
    rw [pruneBody_cons]
    by_cases passes : stmt.ways.completes = true
    · rw [if_pos passes, execBody, execBody, exec_prune rounds stmt, execBody_prune rounds rest]
    · rw [if_neg passes, execBody, execBody, exec_prune rounds stmt]
      exact andThen_unreached (exec_within rounds stmt) (Bool.not_eq_true _ ▸ passes)

end

mutual

/-- A pruned statement can end in the same ways. -/
theorem ways_prune (stmt : Stmt) : stmt.prune.ways = stmt.ways := by
  cases stmt with
  | block body => rw [prune_block, ways_block, ways_block, bodyWays_prune body]
  | branch comparison lhs rhs ifTrue ifFalse =>
    rw [prune_branch, ways_branch, ways_branch, ways_prune ifTrue, ways_prune ifFalse]
  | loop body => rw [prune_loop, ways_loop, ways_loop, ways_prune body]
  | _ => rfl

theorem bodyWays_prune (body : List Stmt) : bodyWays (pruneBody body) = bodyWays body := by
  cases body with
  | nil => rfl
  | cons stmt rest =>
    rw [pruneBody_cons, bodyWays_cons, bodyWays_cons, ways_prune stmt]
    by_cases passes : stmt.ways.completes = true
    · rw [if_pos passes, bodyWays_prune rest]
    · rw [if_neg passes]
      simp [Ways.andThen, passes]

end

mutual

/-- Nothing is left to prune in a pruned statement. -/
theorem prune_prune (stmt : Stmt) : stmt.prune.prune = stmt.prune := by
  cases stmt with
  | block body => rw [prune_block, prune_block, pruneBody_prune body]
  | branch comparison lhs rhs ifTrue ifFalse =>
    rw [prune_branch, prune_branch, prune_prune ifTrue, prune_prune ifFalse]
  | loop body => rw [prune_loop, prune_loop, prune_prune body]
  | _ => rfl

theorem pruneBody_prune (body : List Stmt) : pruneBody (pruneBody body) = pruneBody body := by
  cases body with
  | nil => rfl
  | cons stmt rest =>
    rw [pruneBody_cons, pruneBody_cons, prune_prune stmt, ways_prune stmt]
    by_cases passes : stmt.ways.completes = true
    · simp only [if_pos passes, pruneBody_prune rest]
    · simp only [if_neg passes]

end

/-- Pruning shows nowhere: not in the text that is written, not in a second pruning, not in the
analysis, and not in any run, whether it ends or not. -/
theorem pruning_unobservable (stmt : Stmt) :
    (∀ (layout : Java.Layout) (depth : Nat),
      layout.render (stmt.prune.toJava.lines depth) = layout.render (stmt.toJava.lines depth)) ∧
    stmt.prune.prune = stmt.prune ∧
    stmt.prune.ways.completes = stmt.ways.completes ∧
    (∀ (rounds : Nat) (machine : Machine),
      stmt.prune.exec rounds machine = stmt.exec rounds machine) ∧
    ∀ machine : Machine, machine.exec stmt.prune = machine.exec stmt := by
  refine ⟨?_, prune_prune stmt, ?_, ?_, ?_⟩
  · intro layout depth
    rw [toJava, prune_prune, toJava]
  · rw [ways_prune]
  · intro rounds machine
    rw [exec_prune]
  · intro machine
    rw [Machine.exec, Machine.exec, exec_prune]

end Stmt
end LoopLang
