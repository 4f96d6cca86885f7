import LoopLang.Proofs.Doubles
import LoopLang.Proofs.JavaRun
import LoopLang.Proofs.ProgramText
import LoopLang.Proofs.Reachability

/-! Java programs never get stuck. Every declared variable keeps a value, nothing else is used, and a
`break` that comes up finds the mark of its loop among the tasks behind it. So a program that is
written either comes to its end or goes on forever, whatever the source would do. -/
namespace LoopLang
variable {declared : List String}

/-! ### Values -/

section
variable {values : Store} {left right : Float} {lhs rhs : Expr}

/-- The tree of a number has the value of the number. -/
@[simp] theorem Java.number_numberTerm (number : Number) :
    (Java.numberTerm number).number? values = some number.toFloat := by
  rw [Java.numberTerm]
  cases meant : number.meaning with
  | nan =>
    have same : number.toFloat = (⟨0x7FF8000000000000⟩ : Number).toFloat :=
      Number.toFloat_eq_of_nan meant (by decide)
    rw [same]
    rfl
  | infinite negative =>
    cases negative with
    | true =>
      have same : number = ⟨0xFFF0000000000000⟩ :=
        Number.eq_of_meaning (meant.trans (by decide)) (by simp [meant])
      rw [same]
      rfl
    | false =>
      have same : number = ⟨0x7FF0000000000000⟩ :=
        Number.eq_of_meaning (meant.trans (by decide)) (by simp [meant])
      rw [same]
      rfl
  | finite negative magnitude =>
    cases negative with
    | true => simp [Java.Term.number?, Number.neg_toFloat_unsigned meant]
    | false => rfl

/-- Java computes an operation from the values of its operands, -/
theorem Operator.exists_number (operator : Operator) (evaluatesLeft : lhs.term.number? values = some left)
    (evaluatesRight : rhs.term.number? values = some right) :
    ∃ result, (operator.term lhs.term rhs.term).number? values = some result := by
  cases operator <;>
    simp [term, Java.Term.number?, Java.numbers?, Java.called?, Java.Sign.apply?, *]

/-- as the source does where it does not refuse. -/
theorem Operator.number_eq {operator : Operator} {result : Float}
    (applied : operator.apply left right = .ok result)
    (evaluatesLeft : lhs.term.number? values = some left)
    (evaluatesRight : rhs.term.number? values = some right) :
    (operator.term lhs.term rhs.term).number? values = some result := by
  cases operator with
  | div =>
    rw [apply] at applied
    split at applied
    · cases applied
    · cases applied
      simp [term, Java.Term.number?, Java.Sign.apply?, *]
  | _ =>
    cases applied
    simp [term, Java.Term.number?, Java.numbers?, Java.called?, Java.Sign.apply?, *]

/-- Tests mean the same in both languages. -/
theorem Java.holds_test (comparison : Comparison) (evaluatesLeft : lhs.term.number? values = some left)
    (evaluatesRight : rhs.term.number? values = some right) :
    (Java.test comparison lhs rhs).holds? values = some (comparison.holds left right) := by
  simp only [Java.test, Java.Term.holds?, evaluatesLeft, evaluatesRight, Option.bind_eq_bind, Option.bind_some]
  cases comparison <;> rfl

/-- Java evaluates whatever uses declared variables only. -/
theorem Expr.exists_number (held : ∀ name ∈ declared, values.contains name = true)
    (expr : Expr) (known : ∀ name, expr.Mentions name → name ∈ declared) :
    ∃ result, expr.term.number? values = some result := by
  induction expr with
  | constant number => exact ⟨number.toFloat, Java.number_numberTerm number⟩
  | var name => exact Option.isSome_iff_exists.mp (held name (known name rfl))
  | binary operator lhs rhs left right =>
    obtain ⟨leftValue, evaluatesLeft⟩ := left fun name inside => known name (.inl inside)
    obtain ⟨rightValue, evaluatesRight⟩ := right fun name inside => known name (.inr inside)
    exact operator.exists_number evaluatesLeft evaluatesRight

end

namespace Java

/-! ### First steps -/

namespace Stmt
variable {state after : State} {rest : List Task} {comparison : Comparison} {lhs rhs value : Expr}
  {name : String} {result : Float} {holds : Bool}

theorem start_assign (evaluates : value.term.number? state.values = some result)
    (assigned : state.assign name result = some after) :
    (assign name value).tree.start state rest = some ⟨rest, after⟩ := by
  simp [tree, Tree.start, evaluates, assigned]

theorem start_println (evaluates : value.term.number? state.values = some result) :
    (println value).tree.start state rest = some ⟨rest, state.println (Printer.valueText result)⟩ := by
  simp [tree, Tree.start, Term.line?, evaluates]

theorem start_ifThen {ifTrue : Stmt}
    (decided : (test comparison lhs rhs).holds? state.values = some holds) :
    (ifThen comparison lhs rhs ifTrue).tree.start state rest =
      some ⟨if holds then .run ifTrue.tree :: rest else rest, state⟩ := by
  simp [tree, Tree.start, decided]

theorem start_ifElse {ifTrue : List Stmt} {ifFalse : Stmt}
    (decided : (test comparison lhs rhs).holds? state.values = some holds) :
    (ifElse comparison lhs rhs ifTrue ifFalse).tree.start state rest =
      some ⟨.run (if holds then (block ifTrue).tree else ifFalse.tree) :: rest, state⟩ := by
  simp [tree, Tree.start, decided]

end Stmt

/-! ### Tasks -/

/-- The loops that a `break` in the statement needs are in the statement or around it. -/
def Stmt.Proper (looped : Bool) (stmt : Stmt) : Prop :=
  ∃ reachable, ∀ place ∈ stmt.places reachable looped, place.stmt = .leave → place.looped = true

/-- Tasks that use declared variables only, and whose `break`s have their loops. -/
inductive Fit (declared : List String) : List Task → Prop where
  | done : Fit declared []
  | run {stmt : Stmt} {rest : List Task} (known : ∀ name, stmt.Mentions name → name ∈ declared)
      (proper : stmt.Proper (Task.afterLoop rest).isSome) (behind : Fit declared rest) :
      Fit declared (.run stmt.tree :: rest)
  | again {body : Stmt} {rest : List Task} (known : ∀ name, body.Mentions name → name ∈ declared)
      (behind : Fit declared rest) : Fit declared (.again .truth body.tree :: rest)

theorem Fit.afterLoop {tasks rest : List Task} (fit : Fit declared tasks)
    (left : Task.afterLoop tasks = some rest) : Fit declared rest := by
  induction fit with
  | done => cases left
  | run known proper behind ih => exact ih left
  | again known behind =>
    cases left
    exact behind

/-- Statements in sequence are fit before fit tasks. -/
theorem Fit.body {rest : List Task} (behind : Fit declared rest) {body : List Stmt} (reachable : Bool)
    (known : ∀ name, BodyMentions name body → name ∈ declared)
    (proper : ∀ place ∈ Stmt.bodyPlaces reachable (Task.afterLoop rest).isSome body,
      place.stmt = .leave → place.looped = true) : Fit declared ((bodyTrees body).map .run ++ rest) := by
  induction body generalizing reachable with
  | nil => exact behind
  | cons stmt body ih =>
    rw [bodyTrees, List.map_cons, List.cons_append]
    refine .run (fun name inside => known name (.inl inside)) ⟨reachable, fun place held => ?_⟩ ?_
    · rw [Task.afterLoop_run] at held
      exact proper place (List.mem_append_left _ held)
    · exact ih _ (fun name inside => known name (.inr inside))
        fun place held => proper place (List.mem_append_right _ held)

namespace Config
variable {config : Config}

/-- Every declared variable has a value, and the tasks are fit. -/
structure Sound (declared : List String) (config : Config) : Prop where
  held : ∀ name ∈ declared, config.state.values.contains name = true
  fit : Fit declared config.tasks

/-- A sound configuration is at its end or takes a step to a sound one. -/
private theorem Sound.step (sound : Sound declared config) :
    config.tasks = [] ∨ ∃ next, config.step = some next ∧ Sound declared next := by
  obtain ⟨tasks, state⟩ := config
  obtain ⟨held, fit⟩ := sound
  have tests (comparison : Comparison) (lhs rhs : Expr)
      (knownLeft : ∀ name, lhs.Mentions name → name ∈ declared)
      (knownRight : ∀ name, rhs.Mentions name → name ∈ declared) :
      ∃ holds, (test comparison lhs rhs).holds? state.values = some holds := by
    obtain ⟨left, evaluatesLeft⟩ := lhs.exists_number held knownLeft
    obtain ⟨right, evaluatesRight⟩ := rhs.exists_number held knownRight
    exact ⟨_, holds_test comparison evaluatesLeft evaluatesRight⟩
  cases fit with
  | done => exact .inl rfl
  | again known behind =>
    exact .inr ⟨_, rfl, held, .run known ⟨true, fun place inside _ => Stmt.places_looped true _ inside⟩
      (.again known behind)⟩
  | @run stmt rest known proper behind =>
    refine .inr ?_
    obtain ⟨reachable, proper⟩ := proper
    cases stmt with
    | block body =>
      exact ⟨_, rfl, held, behind.body reachable known fun place inside => proper place (.tail _ inside)⟩
    | assign name value =>
      obtain ⟨result, evaluates⟩ := value.exists_number held fun name inside => known name (.inr inside)
      have target : state.values.contains name = true := held name (known name (.inl rfl))
      refine ⟨_, Stmt.start_assign evaluates (if_pos target), ?_, behind⟩
      intro other declares
      have former := held other declares
      rw [Store.contains] at former ⊢
      rw [Store.get_insert]
      split
      · rfl
      · exact former
    | ifThen comparison lhs rhs ifTrue =>
      obtain ⟨holds, decided⟩ := tests comparison lhs rhs (fun name inside => known name (.inl inside))
        fun name inside => known name (.inr (.inl inside))
      have governed : Fit declared (.run ifTrue.tree :: rest) :=
        .run (fun name inside => known name (.inr (.inr inside)))
          ⟨reachable, fun place inside => proper place (.tail _ inside)⟩ behind
      refine ⟨_, Stmt.start_ifThen decided, held, ?_⟩
      dsimp only
      split
      · exact governed
      · exact behind
    | ifElse comparison lhs rhs ifTrue ifFalse =>
      obtain ⟨holds, decided⟩ := tests comparison lhs rhs (fun name inside => known name (.inl inside))
        fun name inside => known name (.inr (.inl inside))
      have front : Fit declared (.run (Stmt.block ifTrue).tree :: rest) := by
        refine .run (fun name inside => known name (.inr (.inr (.inl inside)))) ?_ behind
        exact ⟨reachable, fun place inside => proper place (List.mem_append_left _ (.tail _ inside))⟩
      have otherwise : Fit declared (.run ifFalse.tree :: rest) := by
        refine .run (fun name inside => known name (.inr (.inr (.inr inside)))) ?_ behind
        exact ⟨reachable, fun place inside => proper place (List.mem_append_right _ inside)⟩
      refine ⟨_, Stmt.start_ifElse decided, held, ?_⟩
      dsimp only
      split
      · exact front
      · exact otherwise
    | whileTrue body => exact ⟨_, rfl, held, .again known behind⟩
    | leave =>
      have looped : (Task.afterLoop rest).isSome = true := proper _ (.head _) rfl
      obtain ⟨tail, left⟩ := Option.isSome_iff_exists.mp looped
      refine ⟨⟨tail, state⟩, ?_, held, behind.afterLoop left⟩
      simp [step, Stmt.tree, Tree.start, left]
    | println value =>
      obtain ⟨result, evaluates⟩ := value.exists_number held known
      exact ⟨_, Stmt.start_println evaluates, held, behind⟩

/-- So is every configuration that a sound one gets to. -/
theorem Sound.after (sound : Sound declared config) {steps : Nat} {reached : Config}
    (led : config.after steps = some reached) : Sound declared reached := by
  induction steps generalizing config with
  | zero =>
    cases led
    exact sound
  | succ steps ih =>
    obtain ⟨next, stepped, goesOn⟩ := Option.bind_eq_some_iff.mp led
    rcases sound.step with ended | ⟨other, steppedToo, soundNext⟩
    · simp [Config.step, ended] at stepped
    · cases stepped.symm.trans steppedToo
      exact ih soundNext goesOn

end Config

/-- Declarations of zeros give every variable the value zero. -/
private theorem declare_zeros (values : Store) (names : List String) :
    declare values (names.map fun name => (name, .literal ⟨0⟩)) =
      some (values.insertAll (names.map fun name => (name, 0.0))) := by
  induction names generalizing values with
  | nil => rfl
  | cons name rest ih =>
    have zero : (⟨0⟩ : Number).toFloat = 0.0 := rfl
    simp [declare, Term.number?, zero, ih, Store.insertAll]

/-- Behind the declarations each variable holds zero, and nothing is printed. -/
theorem Program.start_tree (program : Program) : program.tree.start? =
    some ⟨(bodyTrees program.body).map .run,
      Store.ofList (program.declared.map fun name => (name, 0.0)), ""⟩ := by
  rw [ProgramTree.start?, Program.tree, declare_zeros]
  rfl

end Java

namespace Stmt

/-- The Java program of a program without a stray exit never gets stuck. -/
theorem toJavaProgram_neverStuck (className : String) (program : Stmt)
    (proper : program.strayRoles? = none) : (program.toJavaProgram className).tree.NeverStuck := by
  refine ⟨_, Java.Program.start_tree _, fun steps config led => ?_⟩
  have start : Java.Config.Sound program.names ⟨(Java.bodyTrees (program.toJavaProgram className).body).map .run,
      Store.ofList (program.names.map fun name => (name, 0.0)), ""⟩ := by
    refine ⟨fun name declares => ?_, ?_⟩
    · have zero := Store.get_insertAll_zeros ∅ program.names name
      rw [if_pos declares] at zero
      exact Option.isSome_of_eq_some zero
    · have known : ∀ name, Java.BodyMentions name (program.toJavaProgram className).body →
          name ∈ program.names := fun name mentions => mem_names_of_body mentions
      have fit := Java.Fit.done.body true known fun place inside leaves => ?_
      · rwa [List.append_nil] at fit
      · rw [toJavaProgram_body] at inside
        exact toJava_break_looped true program proper (Java.Stmt.bodyPlaces_braced inside) leaves
  rcases (start.after led).step with ended | ⟨next, stepped, -⟩
  · exact .inl ended
  · exact .inr (Option.isSome_iff_exists.mpr ⟨next, stepped⟩)

end Stmt
end LoopLang
