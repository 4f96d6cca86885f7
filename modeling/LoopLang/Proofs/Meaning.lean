import LoopLang.Proofs.Capture
import LoopLang.Proofs.JavaProgress
import LoopLang.Proofs.Prune
import LoopLang.Proofs.Runs

/-! Compilation keeps the meaning of a program. The Java program that the text is read as goes wherever
the source goes: it has printed the same text, it holds the same values, and a variable that the source
has not bound still holds zero. A run that is cut short after a number of rounds is matched by at least
as many steps, so a program that never ends is matched by one that never ends. -/
namespace LoopLang
namespace Java

/-- The Java program is where the machine is: it agrees on bound variables and on what is printed, and
the other declared variables hold zero. -/
structure Mirrors (declared : List String) (machine : Machine) (state : State) : Prop where
  bound : ∀ name value, machine.store.get? name = some value → state.values.get? name = some value
  unbound : ∀ name ∈ declared, machine.store.get? name = none → state.values.get? name = some 0.0
  printed : machine.printer = .buffer state.printed

namespace Mirrors
variable {declared : List String} {machine : Machine} {state : State}

theorem count (mirrors : Mirrors declared machine state) : Mirrors declared machine.count state :=
  ⟨mirrors.bound, mirrors.unbound, mirrors.printed⟩

/-- What the source can evaluate has the same value in Java. -/
theorem number_eq (mirrors : Mirrors declared machine state) {expr : Expr} {result : Float}
    (evaluates : expr.eval machine.store = .ok result) :
    expr.term.number? state.values = some result := by
  induction expr generalizing result with
  | constant number =>
    cases evaluates
    exact number_numberTerm number
  | var name =>
    exact mirrors.bound name result (Store.lookup_eq_ok_iff.mp evaluates)
  | binary operator lhs rhs leftIh rightIh =>
    obtain ⟨leftValue, rightValue, left, right, applied⟩ := Expr.eval_binary_eq_ok_iff.mp evaluates
    exact Operator.number_eq applied (leftIh left) (rightIh right)

theorem assign (mirrors : Mirrors declared machine state) {name : String} (value : Float)
    (known : name ∈ declared) : ∃ after, state.assign name value = some after ∧
      Mirrors declared (machine.assign name value) after := by
  have held : state.values.contains name = true := by
    rw [Store.contains]
    cases old : machine.store.get? name with
    | none => rw [mirrors.unbound name known old, Option.isSome_some]
    | some former => rw [mirrors.bound name former old, Option.isSome_some]
  refine ⟨_, if_pos held, ?_, ?_, mirrors.printed⟩
  · intro probe result bound
    by_cases same : name = probe
    · simpa [Machine.assign, Store.get_insert, same] using bound
    · simp only [Machine.assign, Store.get_insert, if_neg same] at bound ⊢
      exact mirrors.bound probe result bound
  · intro probe declares unbound
    by_cases same : name = probe
    · simp [Machine.assign, Store.get_insert, same] at unbound
    · simp only [Machine.assign, Store.get_insert, if_neg same] at unbound ⊢
      exact mirrors.unbound probe declares unbound

theorem println (mirrors : Mirrors declared machine state) (line : String) :
    Mirrors declared (machine.println line) (state.println line) := by
  refine ⟨mirrors.bound, mirrors.unbound, ?_⟩
  simp [Machine.println, State.println, mirrors.printed, Printer.println]

end Mirrors

/-- The tasks that are left, by the way in which the source ended: those behind the statement, a `break`
out of the same loop, or any at all. A cut has cost as many steps as a loop had rounds. -/
inductive Leaves (rest : List Task) (rounds steps : Nat) : List Task → Option Outcome → Prop where
  | completed : Leaves rest rounds steps rest (some .completed)
  | exited {tail : List Task} (sameLoop : Task.afterLoop tail = Task.afterLoop rest) :
      Leaves rest rounds steps (.run .leave :: tail) (some .exited)
  | failed : Leaves rest rounds steps tasks (some (.failed cause))
  | cut (enough : rounds ≤ steps) : Leaves rest rounds steps tasks none

private theorem Leaves.later {rest tasks : List Task} {rounds more steps later : Nat}
    {ending : Option Outcome}
    (leaves : Leaves rest rounds steps tasks ending) (longer : more + steps ≤ rounds + later) :
    Leaves rest more later tasks ending := by
  cases leaves with
  | completed => exact .completed
  | exited sameLoop => exact .exited sameLoop
  | failed => exact .failed
  | cut enough => exact .cut (by omega)

/-- From the configuration the Java program gets to where an action left the machine. -/
def Arrives (declared : List String) (rest : List Task) (rounds : Nat) (config : Config)
    (result : Option Outcome × Machine) : Prop :=
  ∃ steps tasks state, config.after steps = some ⟨tasks, state⟩ ∧
    Mirrors declared result.2 state ∧ Leaves rest rounds steps tasks result.1

namespace Arrives
variable {declared : List String} {rest tail : List Task} {rounds : Nat} {config next : Config}
  {machine : Machine} {state : State} {result : Option Outcome × Machine}

/-- An error is matched at once, as Java need not stop for it. -/
theorem failed (cause : RunError) (mirrors : Mirrors declared machine config.state) :
    Arrives declared rest rounds config (some (.failed cause), machine) :=
  ⟨0, _, _, rfl, mirrors, .failed⟩

theorem completed (mirrors : Mirrors declared machine state) :
    Arrives declared rest rounds ⟨rest, state⟩ (some .completed, machine) :=
  ⟨0, _, _, rfl, mirrors, .completed⟩

theorem step (stepped : config.step = some next) (arrives : Arrives declared rest rounds next result) :
    Arrives declared rest rounds config result := by
  obtain ⟨steps, tasks, state, led, mirrors, leaves⟩ := arrives
  exact ⟨steps + 1, tasks, state, (Config.after_succ stepped steps).trans led, mirrors,
    leaves.later (by omega)⟩

theorem counted {action : Action} (mirrors : Mirrors declared machine config.state)
    (arrives : Mirrors declared machine.count config.state →
      Arrives declared rest rounds config (action machine.count)) :
    Arrives declared rest rounds config (Action.counted action machine) := by
  rw [Action.counted]
  split
  · exact failed _ mirrors.count
  · exact arrives mirrors.count

theorem withValue {action : Float → Action} {value : Expr}
    (mirrors : Mirrors declared machine config.state)
    (arrives : ∀ result, value.term.number? config.state.values = some result →
      Arrives declared rest rounds config (action result machine)) :
    Arrives declared rest rounds config (Action.withValue value action machine) := by
  rw [Action.withValue]
  split
  · rename_i result evaluates
    exact arrives result (mirrors.number_eq evaluates)
  · exact failed _ mirrors

theorem andThen {first second : Action} (sameLoop : Task.afterLoop tail = Task.afterLoop rest)
    (arrives : Arrives declared tail rounds config (first machine))
    (goesOn : ∀ middle state, Mirrors declared middle state →
      Arrives declared rest rounds ⟨tail, state⟩ (second middle)) :
    Arrives declared rest rounds config (Action.andThen first second machine) := by
  obtain ⟨steps, tasks, state, led, mirrors, leaves⟩ := arrives
  rw [Action.andThen]
  generalize first machine = result at mirrors leaves ⊢
  obtain ⟨ending, middle⟩ := result
  cases leaves with
  | completed =>
    obtain ⟨more, tasksOn, stateOn, ledOn, mirrorsOn, leavesOn⟩ := goesOn middle state mirrors
    refine ⟨steps + more, tasksOn, stateOn, ?_, mirrorsOn, leavesOn.later (by omega)⟩
    rw [Config.after_add, led]
    exact ledOn
  | exited loop => exact ⟨steps, _, state, led, mirrors, .exited (loop.trans sameLoop)⟩
  | failed => exact ⟨steps, tasks, state, led, mirrors, .failed⟩
  | cut enough => exact ⟨steps, tasks, state, led, mirrors, .cut enough⟩

/-- A loop, by induction on its rounds, each of which costs Java at least the step at the mark. -/
theorem untilExit {action : Action} {body : Tree} {all : Nat}
    (arrives : ∀ machine state, Mirrors declared machine state →
      Arrives declared (.again .truth body :: rest) all
        ⟨.run body :: .again .truth body :: rest, state⟩ (action machine))
    (mirrors : Mirrors declared machine state) (within : rounds ≤ all) :
    Arrives declared rest rounds ⟨.again .truth body :: rest, state⟩
      (Action.untilExit action rounds machine) := by
  induction rounds generalizing machine state with
  | zero => exact ⟨0, _, _, rfl, mirrors, .cut (Nat.le_refl _)⟩
  | succ rounds ih =>
    obtain ⟨steps, tasks, after, led, mirrorsAfter, leaves⟩ := arrives machine state mirrors
    have led : Config.after ⟨.again .truth body :: rest, state⟩ (steps + 1) = some ⟨tasks, after⟩ :=
      (Config.after_succ rfl steps).trans led
    rw [Action.untilExit]
    generalize action machine = result at mirrorsAfter leaves ⊢
    obtain ⟨ending, middle⟩ := result
    cases leaves with
    | completed =>
      obtain ⟨more, tasksOn, stateOn, ledOn, mirrorsOn, leavesOn⟩ := ih mirrorsAfter (by omega)
      refine ⟨steps + 1 + more, tasksOn, stateOn, ?_, mirrorsOn, leavesOn.later (by omega)⟩
      rw [Config.after_add, led]
      exact ledOn
    | exited loop =>
      refine ⟨steps + 1 + 1, rest, after, ?_, mirrorsAfter, .completed⟩
      rw [Config.after_add, led]
      simp [Config.after, Config.step, Tree.start, loop, Task.afterLoop]
    | failed => exact ⟨steps + 1, tasks, after, led, mirrorsAfter, .failed⟩
    | cut enough => exact ⟨steps + 1, tasks, after, led, mirrorsAfter, .cut (by omega)⟩

/-- A statement begins where its parts between braces begin, or one step before. -/
theorem of_braced {stmt : Stmt}
    (arrives : Arrives declared rest rounds ⟨(bodyTrees stmt.braced).map .run ++ rest, state⟩ result) :
    Arrives declared rest rounds ⟨.run stmt.tree :: rest, state⟩ result := by
  cases stmt with
  | block body => exact step rfl arrives
  | _ => exact arrives

end Arrives
end Java

namespace Stmt
open Java (Arrives Mirrors Task)
variable {declared : List String}

/-- A conditional with something to do otherwise has an `else`. -/
private theorem translate_branch (comparison : Comparison) (lhs rhs : Expr) (ifTrue ifFalse : Stmt)
    (otherwise : ifFalse ≠ block []) :
    (branch comparison lhs rhs ifTrue ifFalse).translate =
      .ifElse comparison lhs rhs ifTrue.translate.braced ifFalse.translate := by
  rw [translate]
  exact otherwise

mutual

/-- A statement is matched by its translation, put between braces. -/
theorem translate_arrives (rounds : Nat) (stmt : Stmt)
    (known : ∀ name, stmt.Mentions name → name ∈ declared) (rest : List Task) (machine : Machine)
    (state : Java.State) (mirrors : Mirrors declared machine state) :
    Arrives declared rest rounds ⟨(Java.bodyTrees stmt.translate.braced).map .run ++ rest, state⟩
      (stmt.exec rounds machine) := by
  cases stmt with
  | block body =>
    rw [translate, exec]
    exact .counted mirrors fun counted =>
      translateBody_arrives rounds body known rest _ state counted
  | assign name value =>
    rw [translate, exec]
    refine .counted mirrors fun counted => .withValue counted fun result evaluates => ?_
    obtain ⟨after, assigned, mirrorsAfter⟩ := counted.assign result (known name (.inl rfl))
    exact .step (Java.Stmt.start_assign evaluates assigned) (.completed mirrorsAfter)
  | branch comparison lhs rhs ifTrue ifFalse =>
    have knownTrue : ∀ name, ifTrue.Mentions name → name ∈ declared :=
      fun name inside => known name (.inr (.inr (.inl inside)))
    have knownFalse : ∀ name, ifFalse.Mentions name → name ∈ declared :=
      fun name inside => known name (.inr (.inr (.inr inside)))
    rw [exec]
    refine .counted mirrors fun counted => .withValue counted fun left evaluatesLeft =>
      .withValue counted fun right evaluatesRight => ?_
    have decided := Java.holds_test comparison evaluatesLeft evaluatesRight
    by_cases empty : ifFalse = block []
    · subst empty
      rw [translate]
      refine .step (Java.Stmt.start_ifThen decided) ?_
      cases comparison.holds left right with
      | true => exact .of_braced (translate_arrives rounds ifTrue knownTrue rest _ state counted)
      | false =>
        rw [exec]
        exact .counted counted fun counted => .completed counted
    · rw [translate_branch _ _ _ _ _ empty]
      refine .step (Java.Stmt.start_ifElse decided) ?_
      cases comparison.holds left right with
      | true => exact .step rfl (translate_arrives rounds ifTrue knownTrue rest _ state counted)
      | false => exact .of_braced (translate_arrives rounds ifFalse knownFalse rest _ state counted)
  | loop body =>
    rw [translate, exec]
    refine .counted mirrors fun counted => .step rfl (.untilExit ?_ counted (Nat.le_refl _))
    exact fun machine state mirrors =>
      .of_braced (translate_arrives rounds body known _ machine state mirrors)
  | exit =>
    rw [translate, exec]
    exact .counted mirrors fun counted => ⟨0, _, state, rfl, counted, .exited rfl⟩
  | print value =>
    rw [translate, exec]
    exact .counted mirrors fun counted => .withValue counted fun result evaluates =>
      .step (Java.Stmt.start_println evaluates) (.completed (counted.println _))

/-- Statements in sequence are matched by their translations. -/
theorem translateBody_arrives (rounds : Nat) (body : List Stmt)
    (known : ∀ name, BodyMentions name body → name ∈ declared) (rest : List Task) (machine : Machine)
    (state : Java.State) (mirrors : Mirrors declared machine state) :
    Arrives declared rest rounds ⟨(Java.bodyTrees (translateBody body)).map .run ++ rest, state⟩
      (execBody rounds body machine) := by
  cases body with
  | nil => exact .completed mirrors
  | cons stmt body =>
    rw [translateBody, execBody]
    refine .andThen (Task.afterLoop_run (Java.bodyTrees (translateBody body)) rest) ?_ ?_
    · exact .of_braced (translate_arrives rounds stmt (fun name inside => known name (.inl inside)) _
        machine state mirrors)
    · exact translateBody_arrives rounds body (fun name inside => known name (.inr inside)) rest

end

end Stmt

/-- An unlimited machine that has no variables and captures what it prints. It may have counted
statements of earlier runs. -/
def Machine.fresh (steps : Nat) : Machine := { store := ∅, printer := .buffer "", steps }

namespace Java

/-- The Java program does what the source does from the machine. -/
structure ProgramTree.KeepsMeaning (java : ProgramTree) (program : LoopLang.Stmt) (machine : Machine) :
    Prop where
  /-- No two variables have one name. -/
  distinct : java.locals.Nodup
  /-- Names with points in them are those of the library: nothing in the program is called like its classes. -/
  visible : ∀ name, java.HasQualifier name → name ∉ java.className :: java.locals
  /-- Java never gets stuck, even where the source fails. -/
  goesOn : java.NeverStuck
  /-- Where the source completes, Java finishes with the same text and values. -/
  completed : ∀ final, program.Ends machine .completed final →
    ∃ state, java.Finishes state ∧ Mirrors program.names final state
  /-- Where the source fails, Java has got as far, and keeps the text when it goes on. -/
  failed : ∀ cause final, program.Ends machine (.failed cause) final →
    ∃ state, java.Reaches state ∧ Mirrors program.names final state ∧
      ∀ last, java.Finishes last → state.printed.toList <+: last.printed.toList
  /-- Where the source goes on forever, Java does so too and prints the same. -/
  endless : program.Endless machine →
    java.Endless ∧ ∀ text, program.Prints machine text ↔ java.Prints text

private theorem ProgramTree.after_eq {java : ProgramTree} {start : Config}
    (starts : java.start? = some start) (steps : Nat) : java.after steps = start.after steps := by
  rw [after, starts, Option.bind_some]

end Java

namespace Stmt
open Java (Arrives Mirrors)

/-- However many rounds a run is given, the Java program gets to where the run is. -/
theorem toJavaProgram_arrives (className : String) (program : Stmt) (steps rounds : Nat) :
    Arrives program.names [] rounds
      ⟨(Java.bodyTrees (program.toJavaProgram className).body).map .run,
        Store.ofList (program.names.map fun name => (name, 0.0)), ""⟩
      (program.exec rounds (Machine.fresh steps)) := by
  have known : ∀ name, program.prune.Mentions name → name ∈ program.names :=
    fun name mentions => (mem_names_iff program).mpr (prune_mentions program mentions)
  have mirrors : Mirrors program.names (Machine.fresh steps)
      ⟨Store.ofList (program.names.map fun name => (name, 0.0)), ""⟩ := by
    refine ⟨fun name value bound => ?_, fun name held _ => ?_, rfl⟩
    · simp [Machine.fresh] at bound
    · exact (Store.get_insertAll_zeros ∅ program.names name).trans (if_pos held)
  have arrives := translate_arrives rounds program.prune known [] _ _ mirrors
  rw [exec_prune, List.append_nil] at arrives
  rwa [toJavaProgram_body]

section
variable {program : Stmt} {machine final : Machine} {java : Java.ProgramTree} {start : Java.Config}

private theorem finishes_of_completed (starts : java.start? = some start)
    (arrives : ∀ rounds, Arrives program.names [] rounds start (program.exec rounds machine))
    (ends : program.Ends machine .completed final) :
    ∃ state, java.Finishes state ∧ Mirrors program.names final state := by
  obtain ⟨rounds, ran⟩ := ends
  obtain ⟨taken, tasks, state, led, mirrors, leaves⟩ := arrives rounds
  rw [ran] at mirrors leaves
  cases leaves
  exact ⟨state, ⟨taken, (java.after_eq starts taken).trans led⟩, mirrors⟩

private theorem reaches_of_failed {cause : RunError} (starts : java.start? = some start)
    (arrives : ∀ rounds, Arrives program.names [] rounds start (program.exec rounds machine))
    (ends : program.Ends machine (.failed cause) final) :
    ∃ state, java.Reaches state ∧ Mirrors program.names final state ∧
      ∀ last, java.Finishes last → state.printed.toList <+: last.printed.toList := by
  obtain ⟨rounds, ran⟩ := ends
  obtain ⟨taken, tasks, state, led, mirrors, -⟩ := arrives rounds
  rw [ran] at mirrors
  refine ⟨state, ⟨taken, tasks, (java.after_eq starts taken).trans led⟩, mirrors, ?_⟩
  rintro last ⟨finish, ended⟩
  rw [java.after_eq starts] at ended
  exact Java.Config.printed_before_end led ended

/-- Each cut of an endless run is matched by a time of the Java program, and later cuts by later times,
so neither prints anything that the other does not. -/
private theorem endless_of_endless (starts : java.start? = some start)
    (arrives : ∀ rounds, Arrives program.names [] rounds start (program.exec rounds machine))
    (endless : program.Endless machine) :
    java.Endless ∧ ∀ text, program.Prints machine text ↔ java.Prints text := by
  have same := java.after_eq starts
  have cut (rounds : Nat) : ∃ taken tasks state, rounds ≤ taken ∧
      start.after taken = some ⟨tasks, state⟩ ∧
      (program.exec rounds machine).2.printer = .buffer state.printed := by
    obtain ⟨taken, tasks, state, led, mirrors, leaves⟩ := arrives rounds
    rw [endless rounds] at leaves
    cases leaves with
    | cut enough => exact ⟨taken, tasks, state, enough, led, mirrors.printed⟩
  refine ⟨fun rounds => ?_, fun shown => ⟨?_, ?_⟩⟩
  · obtain ⟨taken, tasks, state, enough, led, -⟩ := cut rounds
    obtain ⟨middle, there, -⟩ := Java.Config.after_earlier led enough
    rw [same, there, Option.isSome_some]
  · rintro ⟨rounds, begins⟩
    obtain ⟨taken, tasks, state, -, led, printed⟩ := cut rounds
    rw [printed] at begins
    exact ⟨state, ⟨taken, tasks, (same taken).trans led⟩, begins⟩
  · rintro ⟨state, ⟨taken, tasks, led⟩, begins⟩
    rw [same] at led
    obtain ⟨more, later, after, enough, ledOn, printed⟩ := cut taken
    obtain ⟨middle, there, grows⟩ := Java.Config.after_earlier ledOn enough
    cases led.symm.trans there
    refine ⟨taken, ?_⟩
    rw [printed]
    exact begins.trans grows

end

/-- The parameter has a name of its own, and so has every variable. -/
private theorem locals_distinct (className : String) (program : Stmt) :
    (program.toJavaProgram className).tree.locals.Nodup := by
  obtain ⟨count, ends, free, -⟩ := Java.freeName_is_first program.names "args"
  rw [locals_tree]
  refine List.nodup_cons.mpr ⟨?_, ?_⟩
  · rw [freeParameter, ends]
    exact free
  · refine program.names_increasing.imp fun less => ?_
    rintro rfl
    simp at less

/-- No class of the library is hidden, unless something is called like it. -/
private theorem classes_visible {className : String} {program : Stmt}
    (ownClass : className ∉ classes)
    (ownNames : ∀ name ∈ program.names, name ∉ classes) {name : String}
    (qualifies : (program.toJavaProgram className).tree.HasQualifier name) :
    name ∉ className :: (program.toJavaProgram className).tree.locals := by
  have needed : name ∈ classes := program.needsClass_known ((hasQualifier_tree className program).mp qualifies)
  rw [locals_tree]
  intro held
  rcases List.mem_cons.mp held with rfl | held
  · exact ownClass needed
  · rcases List.mem_cons.mp held with rfl | held
    · exact freeParameter_no_class program.names needed
    · exact ownNames name held needed

/-- A program that compiles becomes the text of a Java program with the same meaning. -/
theorem compile_keeps_meaning (alphabet : Java.Alphabet) (layout : Java.Layout) (program : Stmt)
    (text : String) (compiled : program.compile layout = .ok text)
    (called : alphabet.IsName layout.className ∧ layout.className ∉ classes)
    (named : ∀ name ∈ program.names, alphabet.IsName name ∧ name ∉ classes) (steps : Nat) :
    Java.readProgram alphabet text = some (program.javaProgram layout.className) ∧
    (program.javaProgram layout.className).KeepsMeaning program (Machine.fresh steps) := by
  have arrives := toJavaProgram_arrives layout.className program steps
  have starts := (program.toJavaProgram layout.className).start_tree
  rw [← toJavaProgram_tree]
  constructor
  · exact compile_reads_back alphabet layout program text compiled called.1 fun name held => (named name held).1
  · exact
      { distinct := locals_distinct layout.className program
        visible := fun name => classes_visible called.2 fun name held => (named name held).2
        goesOn := toJavaProgram_neverStuck layout.className program (strayRoles?_of_compile compiled)
        completed := fun final ends => finishes_of_completed starts arrives ends
        failed := fun cause final ends => reaches_of_failed starts arrives ends
        endless := endless_of_endless starts arrives }

theorem counting_loop_keeps_meaning :
    let program := block [assign "x" (.constant ⟨0x3FF0000000000000⟩),
      loop (block [print (.var "x"),
        branch .ge (.var "x") (.constant ⟨0x4000000000000000⟩)
          (block [exit, print (.var "y")])
          (assign "x" (.binary .add (.var "x") (.constant ⟨0x3FF0000000000000⟩)))])]
    let text := "public class WordyProgram \x7b\n" ++
      "    public static void main(String[] args) \x7b\n" ++
      "        double x = 0.0;\n" ++
      "        double y = 0.0;\n" ++
      "        x = 1.0;\n" ++
      "        while (true)\n" ++
      "        \x7b\n" ++
      "            System.out.println(x);\n" ++
      "            if (x >= 2.0)\n" ++
      "            \x7b\n" ++
      "                break;\n" ++
      "            \x7d\n" ++
      "            else\n" ++
      "                x = (x + 1.0);\n" ++
      "        \x7d\n" ++
      "    \x7d\n" ++
      "\x7d\n"
    program.compile {} = .ok text ∧
    ∃ java state, Java.readProgram ⟨fun _ => false, fun _ => false⟩ text = some java ∧
      java.Finishes state ∧ state.printed = "1.0\n2.0\n" ∧
      state.values.get? "x" = some 2.0 ∧ state.values.get? "y" = some 0.0 := by
  intro program text
  have compiled : program.compile {} = .ok text :=
    congrArg Except.ok (by decide +kernel : Java.Layout.render {} (program.toJavaProgram _).lines = _)
  have mentions : ∀ name ∈ program.names, name = "x" ∨ name = "y" := by
    intro name held
    have inside := program.mem_names_iff.mp held
    simp [program, Mentions, BodyMentions, Expr.Mentions] at inside
    grind
  have named : ∀ name ∈ program.names,
      Java.Alphabet.IsName ⟨fun _ => false, fun _ => false⟩ name ∧ name ∉ classes := by
    intro name held
    rcases mentions name held with rfl | rfl
    · exact ⟨Java.Alphabet.isName_of_letters _ (by simp) (by simp) (by simp [Java.reserved]), by simp [classes]⟩
    · exact ⟨Java.Alphabet.isName_of_letters _ (by simp) (by simp) (by simp [Java.reserved]), by simp [classes]⟩
  have called : Java.Alphabet.IsName ⟨fun _ => false, fun _ => false⟩ "WordyProgram" ∧
      "WordyProgram" ∉ classes :=
    ⟨Java.Alphabet.isName_of_letters _ (by simp) (by simp) (by simp [Java.reserved]), by simp [classes]⟩
  have kept := compile_keeps_meaning _ {} program text compiled called named 7
  have ends : program.Ends (Machine.fresh 7) .completed (program.exec 2 (Machine.fresh 7)).2 :=
    ⟨2, Prod.ext (by decide +kernel) rfl⟩
  obtain ⟨state, finishes, mirrors⟩ := kept.2.completed _ ends
  have printed : (program.exec 2 (Machine.fresh 7)).2.printer = .buffer "1.0\n2.0\n" := by decide +kernel
  refine ⟨compiled, _, state, kept.1, finishes, ?_, mirrors.bound "x" 2.0 rfl, mirrors.unbound "y" ?_ rfl⟩
  · exact (Printer.buffer.inj (printed.symm.trans mirrors.printed)).symm
  · exact program.mem_names_iff.mpr (by simp [program, Mentions, BodyMentions, Expr.Mentions])

end Stmt
end LoopLang
