import LoopLang.Proofs.Bindings

/-! Where a missing variable comes from. Apart from a spent budget, a run fails only in an expression that it
evaluates, with the error of that expression in the store of that moment, which is the last one. A missing variable
is therefore read where the run got to. It is unbound then, and since a run takes no binding away it was never bound
before: not at the start, and by no assignment on the way. -/
namespace LoopLang

/-! ### Evaluations -/

/-- The evaluation of an expression in a store gets to a part of it. A right operand is evaluated only if the left
one has a value. -/
inductive Expr.Reaches (store : Store) : Expr → Expr → Prop where
  | here : Expr.Reaches store value value
  | left (inside : Expr.Reaches store lhs part) : Expr.Reaches store (.binary operator lhs rhs) part
  | right (evaluates : lhs.eval store = .ok result) (inside : Expr.Reaches store rhs part) :
      Expr.Reaches store (.binary operator lhs rhs) part

section
variable {store : Store} {value part : Expr} {name : String}

/-- A part that is reached reads no other variables. -/
theorem Expr.Reaches.mentions (reaches : value.Reaches store part) (mentions : part.Mentions name) :
    value.Mentions name := by
  induction reaches with
  | here => exact mentions
  | left _ ih => exact .inl (ih mentions)
  | right _ _ ih => exact .inr (ih mentions)

/-- An expression that misses a variable has got to this variable, which is unbound. -/
private theorem Expr.reaches_of_undefined
    (missing : value.eval store = .error (.undefinedVariable name)) :
    value.Reaches store (.var name) ∧ store.get? name = none := by
  refine ⟨?_, (Expr.eval_undefined missing).2⟩
  induction value with
  | constant number => cases missing
  | var other =>
    rw [(Expr.eval_undefined missing).1]
    exact .here
  | binary operator lhs rhs ihLeft ihRight =>
    rcases eval_binary_eq_error_iff.mp missing with left | ⟨result, left, right | ⟨_, -, applied⟩⟩
    · exact .left (ihLeft left)
    · exact .right left (ihRight right)
    · cases (Operator.apply_eq_error_iff.mp applied).2.2

end

namespace Stmt

/-- Completed rounds of the body lead from one machine to another one. -/
inductive Passes (body : Stmt) : Machine → Machine → Prop where
  | none : Passes body machine machine
  | more (completes : body.Ends machine .completed middle) (later : Passes body middle last) :
      Passes body machine last

mutual

/-- A run of the statement from the machine gets to the evaluation of an expression, in this store. -/
inductive Evaluates : Stmt → Machine → Expr → Store → Prop where
  | block (free : machine.count.exceeded? = none) (inside : BodyEvaluates body machine.count value store) :
      Evaluates (block body) machine value store
  | assign (free : machine.count.exceeded? = none) : Evaluates (assign name value) machine value machine.store
  | lhs (free : machine.count.exceeded? = none) :
      Evaluates (branch comparison lhs rhs ifTrue ifFalse) machine lhs machine.store
  | rhs (free : machine.count.exceeded? = none) (left : lhs.eval machine.store = .ok first) :
      Evaluates (branch comparison lhs rhs ifTrue ifFalse) machine rhs machine.store
  | ifTrue (free : machine.count.exceeded? = none) (left : lhs.eval machine.store = .ok first)
      (right : rhs.eval machine.store = .ok second) (holds : comparison.holds first second = true)
      (inside : Evaluates ifTrue machine.count value store) :
      Evaluates (branch comparison lhs rhs ifTrue ifFalse) machine value store
  | ifFalse (free : machine.count.exceeded? = none) (left : lhs.eval machine.store = .ok first)
      (right : rhs.eval machine.store = .ok second) (holds : comparison.holds first second = false)
      (inside : Evaluates ifFalse machine.count value store) :
      Evaluates (branch comparison lhs rhs ifTrue ifFalse) machine value store
  | loop (free : machine.count.exceeded? = none) (before : body.Passes machine.count middle)
      (inside : Evaluates body middle value store) : Evaluates (loop body) machine value store
  | print (free : machine.count.exceeded? = none) : Evaluates (print value) machine value machine.store

/-- The same for statements in sequence. -/
inductive BodyEvaluates : List Stmt → Machine → Expr → Store → Prop where
  | first (inside : Evaluates stmt machine value store) : BodyEvaluates (stmt :: rest) machine value store
  | later (completes : stmt.Ends machine .completed middle) (inside : BodyEvaluates rest middle value store) :
      BodyEvaluates (stmt :: rest) machine value store

end

mutual

/-- The expression is one of the statement: it reads no other variables. -/
theorem reads_of_evaluates {stmt : Stmt} {machine : Machine} {value : Expr} {store : Store} {name : String}
    (evaluates : stmt.Evaluates machine value store) (mentions : value.Mentions name) : stmt.Reads name := by
  cases stmt with
  | block body =>
    cases evaluates with
    | block _ inside => exact bodyReads_of_evaluates inside mentions
  | assign target own =>
    cases evaluates
    exact mentions
  | branch comparison lhs rhs ifTrue ifFalse =>
    cases evaluates with
    | lhs => exact .inl mentions
    | rhs => exact .inr (.inl mentions)
    | ifTrue _ _ _ _ inside => exact .inr (.inr (.inl (reads_of_evaluates inside mentions)))
    | ifFalse _ _ _ _ inside => exact .inr (.inr (.inr (reads_of_evaluates inside mentions)))
  | loop body =>
    cases evaluates with
    | loop _ _ inside =>
      have read : body.Reads name := reads_of_evaluates inside mentions
      exact read
  | exit => cases evaluates
  | print own =>
    cases evaluates
    exact mentions

theorem bodyReads_of_evaluates {body : List Stmt} {machine : Machine} {value : Expr} {store : Store}
    {name : String} (evaluates : BodyEvaluates body machine value store) (mentions : value.Mentions name) :
    BodyReads name body := by
  cases body with
  | nil => cases evaluates
  | cons stmt rest =>
    cases evaluates with
    | first inside => exact .inl (reads_of_evaluates inside mentions)
    | later _ inside => exact .inr (bodyReads_of_evaluates inside mentions)

end

end Stmt

/-! ### Failures -/

namespace Action
variable {machine final : Machine} {cause : RunError}

/-- An error other than a spent budget comes from the action that was counted. -/
private theorem counted_failed {action : Action} (other : ∀ limit, cause ≠ .budgetExhausted limit)
    (failed : counted action machine = (some (.failed cause), final)) :
    machine.count.exceeded? = none ∧ action machine.count = (some (.failed cause), final) := by
  rw [counted] at failed
  cases exceeded : machine.count.exceeded? with
  | none => exact ⟨rfl, by simpa only [exceeded] using failed⟩
  | some limit =>
    simp only [exceeded] at failed
    cases failed
    exact absurd rfl (other limit)

/-- An error on the way to a value is the error of the expression, and one behind it comes from the rest. -/
private theorem withValue_failed {value : Expr} {action : Float → Action}
    (failed : withValue value action machine = (some (.failed cause), final)) :
    value.eval machine.store = .error cause ∧ final = machine ∨
      ∃ result, value.eval machine.store = .ok result ∧ action result machine = (some (.failed cause), final) := by
  cases evaluates : value.eval machine.store with
  | ok result =>
    rw [withValue_ok _ _ evaluates] at failed
    exact .inr ⟨result, rfl, failed⟩
  | error other =>
    rw [withValue_error _ _ evaluates] at failed
    cases failed
    exact .inl ⟨rfl, rfl⟩

end Action

namespace Stmt
variable {cause : RunError}

/-- An error of a loop comes from one of its rounds, behind others that complete. A loop that its body leaves
does not fail. -/
private theorem round_failed {body : Stmt} {all rounds : Nat} {machine final : Machine}
    (failed : Action.untilExit (body.exec all) rounds machine = (some (.failed cause), final)) :
    ∃ middle, body.Passes machine middle ∧ body.exec all middle = (some (.failed cause), final) := by
  induction rounds generalizing machine with
  | zero => cases failed
  | succ rounds ih =>
    rcases Action.untilExit_cases failed with ⟨middle, completed, goesOn⟩ | ⟨-, no⟩ | ⟨own, failed, same⟩
    · obtain ⟨last, passes, failed⟩ := ih goesOn
      exact ⟨last, .more ⟨all, completed⟩ passes, failed⟩
    · cases no
    · cases same
      exact ⟨machine, .none, failed⟩

mutual

/-- A run that fails for anything but a spent budget fails in an expression that it evaluates, in the store that
it leaves. -/
theorem failed_evaluates (other : ∀ limit, cause ≠ .budgetExhausted limit) (rounds : Nat) (stmt : Stmt)
    {machine final : Machine}
    (failed : stmt.exec rounds machine = (some (.failed cause), final)) :
    ∃ value, stmt.Evaluates machine value final.store ∧ value.eval final.store = .error cause := by
  cases stmt with
  | block body =>
    obtain ⟨free, failed⟩ := Action.counted_failed other failed
    obtain ⟨value, inside, fails⟩ := bodyFailed_evaluates other rounds body failed
    exact ⟨value, .block free inside, fails⟩
  | assign name value =>
    obtain ⟨free, failed⟩ := Action.counted_failed other failed
    obtain ⟨fails, rfl⟩ | ⟨result, -, no⟩ := Action.withValue_failed failed
    · exact ⟨value, .assign free, fails⟩
    · cases no
  | branch comparison lhs rhs ifTrue ifFalse =>
    obtain ⟨free, failed⟩ := Action.counted_failed other failed
    obtain ⟨fails, rfl⟩ | ⟨first, left, failed⟩ := Action.withValue_failed failed
    · exact ⟨lhs, .lhs free, fails⟩
    obtain ⟨fails, rfl⟩ | ⟨second, right, failed⟩ := Action.withValue_failed failed
    · exact ⟨rhs, .rhs free left, fails⟩
    cases holds : comparison.holds first second with
    | true =>
      rw [if_pos holds] at failed
      obtain ⟨value, inside, fails⟩ := failed_evaluates other rounds ifTrue failed
      exact ⟨value, .ifTrue free left right holds inside, fails⟩
    | false =>
      rw [if_neg (by simp [holds])] at failed
      obtain ⟨value, inside, fails⟩ := failed_evaluates other rounds ifFalse failed
      exact ⟨value, .ifFalse free left right holds inside, fails⟩
  | loop body =>
    obtain ⟨free, failed⟩ := Action.counted_failed other failed
    obtain ⟨middle, passes, failed⟩ := round_failed failed
    obtain ⟨value, inside, fails⟩ := failed_evaluates other rounds body failed
    exact ⟨value, .loop free passes inside, fails⟩
  | exit =>
    obtain ⟨-, no⟩ := Action.counted_failed other failed
    cases no
  | print value =>
    obtain ⟨free, failed⟩ := Action.counted_failed other failed
    obtain ⟨fails, rfl⟩ | ⟨result, -, no⟩ := Action.withValue_failed failed
    · exact ⟨value, .print free, fails⟩
    · cases no

theorem bodyFailed_evaluates (other : ∀ limit, cause ≠ .budgetExhausted limit) (rounds : Nat) (body : List Stmt)
    {machine final : Machine}
    (failed : execBody rounds body machine = (some (.failed cause), final)) :
    ∃ value, BodyEvaluates body machine value final.store ∧ value.eval final.store = .error cause := by
  cases body with
  | nil => cases failed
  | cons stmt rest =>
    rw [execBody] at failed
    rcases Action.andThen_cases (stmt.exec rounds) (execBody rounds rest) machine with
      ⟨middle, completed, goesOn⟩ | ⟨-, same⟩
    · obtain ⟨value, inside, fails⟩ := bodyFailed_evaluates other rounds rest (goesOn.symm.trans failed)
      exact ⟨value, .later ⟨rounds, completed⟩ inside, fails⟩
    · obtain ⟨value, inside, fails⟩ := failed_evaluates other rounds stmt (same.symm.trans failed)
      exact ⟨value, .first inside, fails⟩

end

end Stmt

/-! ### Bindings -/

/-- What is written is bound. -/
private theorem Store.bound_of_written {pairs : List (String × Float)} {name : String}
    {value : Float}
    (written : (name, value) ∈ pairs) (store : Store) : ((store.insertAll pairs).get? name).isSome := by
  induction pairs generalizing store with
  | nil => cases written
  | cons pair rest ih =>
    rcases List.mem_cons.mp written with rfl | later
    · exact bound_insertAll rest (by simp [get_insert])
    · exact ih later _

namespace Stmt
variable {stmt : Stmt} {machine : Machine} {name : String}

/-- A variable that is unbound after a run was given no value by it, -/
private theorem not_assigned_of_unbound {rounds : Nat}
    (unbound : (stmt.exec rounds machine).2.store.get? name = none)
    (value : Float) : .assigned name value ∉ stmt.events rounds machine := by
  intro happens
  have written : (name, value) ∈ (stmt.events rounds machine).filterMap Event.write? :=
    List.mem_filterMap.mpr ⟨_, happens, rfl⟩
  have bound := Store.bound_of_written written machine.store
  rw [← Machine.after_store, ← exec_after, unbound] at bound
  cases bound

/-- and was unbound before it. -/
private theorem unbound_of_unbound {rounds : Nat}
    (unbound : (stmt.exec rounds machine).2.store.get? name = none) :
    machine.store.get? name = none := by
  cases bound : machine.store.get? name with
  | none => rfl
  | some value =>
    have still := exec_bound rounds stmt (Option.isSome_of_mem bound)
    rw [unbound] at still
    cases still

/-- A run that fails for a variable reads it in an expression that it evaluates, and the variable is bound neither
at its start nor at its end nor by an assignment on the way. Where all variables that a statement reads are bound,
no run of it fails in this way, however long it is. -/
theorem missing_variable_never_bound (stmt : Stmt) (machine : Machine) :
    (∀ rounds name final, stmt.exec rounds machine = (some (.failed (.undefinedVariable name)), final) →
      stmt.Reads name ∧
      (∃ value, stmt.Evaluates machine value final.store ∧ value.Reaches final.store (.var name)) ∧
      machine.store.get? name = none ∧ final.store.get? name = none ∧
      ∀ value, .assigned name value ∉ stmt.events rounds machine) ∧
    ((∀ name, stmt.Reads name → (machine.store.get? name).isSome) →
      ∀ name final, ¬ stmt.Ends machine (.failed (.undefinedVariable name)) final) := by
  constructor
  · intro rounds name final missing
    obtain ⟨value, evaluates, fails⟩ := failed_evaluates (by simp) rounds stmt missing
    obtain ⟨reaches, unbound⟩ := Expr.reaches_of_undefined fails
    have left : (stmt.exec rounds machine).2.store.get? name = none := by rw [missing, unbound]
    exact ⟨reads_of_evaluates evaluates (reaches.mentions rfl), ⟨value, evaluates, reaches⟩,
      unbound_of_unbound left, unbound, not_assigned_of_unbound left⟩
  · rintro bound name final ⟨rounds, missing⟩
    exact not_undefined_of_bound bound rounds name (congrArg Prod.fst missing)

/-- When an operand is missed, an assignment to the other one has been completed, and none to itself. -/
theorem operand_missed :
    exec 1 (block [assign "x" (.constant ⟨0⟩), print (.binary .add (.var "x") (.var "y"))])
        ⟨Store.empty, .silent, none, 0⟩ =
      (some (.failed (.undefinedVariable "y")), ⟨Store.empty.insert "x" 0.0, .silent, none, 3⟩) ∧
    Store.empty.get? "y" = none ∧ (Store.empty.insert "x" 0.0).get? "y" = none := by
  let sum : Expr := .binary .add (.var "x") (.var "y")
  let program : Stmt := block [assign "x" (.constant ⟨0⟩), print sum]
  let start : Machine := ⟨Store.empty, .silent, none, 0⟩
  have zero : (Expr.constant ⟨0⟩).eval Store.empty = .ok 0.0 := rfl
  have fails : sum.eval (Store.empty.insert "x" 0.0) = .error (.undefinedVariable "y") := by
    have nothing : Store.empty.get? "y" = none := Store.get_empty "y"
    simp [sum, Expr.eval, Store.lookup, Store.get_insert, nothing, bind, Except.bind]
  have missing : program.exec 1 start =
      (some (.failed (.undefinedVariable "y")), ⟨Store.empty.insert "x" 0.0, .silent, none, 3⟩) := by
    simp [program, start, exec, execBody, Action.andThen, Action.counted_unlimited, Action.withValue_ok,
      Action.withValue_error, zero, fails, Machine.count, Machine.assign, Machine.maxSteps, UInt64.size]
  obtain ⟨-, -, before, after, -⟩ := (missing_variable_never_bound program start).1 1 "y" _ missing
  exact ⟨missing, before, after⟩

end Stmt
end LoopLang
