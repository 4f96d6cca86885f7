import LoopLang.Proofs.Prune
import LoopLang.Proofs.Runs

/-! What statements mean, by rules that know nothing of machines, limits and rounds. A rule tells the
outcome, the store that is left, the values that are printed and the number of statements started, the
statement itself included. A loop has two rules: after some completed rounds its body exits, or fails.
Execution without a limit computes exactly what the rules derive, and goes on forever where they
derive nothing. -/
namespace LoopLang

namespace Printer

/-- Prints lines one after another. -/
def printLines (printer : Printer) (lines : List String) : Printer := lines.foldl println printer

@[simp] theorem printLines_nil (printer : Printer) : printer.printLines [] = printer := rfl

@[simp] theorem printLines_append (printer : Printer) (first second : List String) :
    printer.printLines (first ++ second) = (printer.printLines first).printLines second :=
  List.foldl_append

end Printer

namespace Machine

/-- The machine after a run from it: the run leaves this store, prints these values and starts so many
statements, of which the counter counts as many as it can. -/
def advance (machine : Machine) (store : Store) (printed : List Float) (started : Nat) : Machine :=
  { machine with
    store
    printer := machine.printer.printLines (printed.map Printer.valueText)
    steps := min (machine.steps + started) maxSteps }

variable {machine : Machine}

theorem count_steps_le (machine : Machine) : machine.count.steps ≤ maxSteps := Nat.min_le_right ..

theorem advance_steps_le (store : Store) (printed : List Float) (started : Nat) :
    (machine.advance store printed started).steps ≤ maxSteps := Nat.min_le_right ..

/-- A run that does nothing leaves the machine as it is. -/
theorem advance_nothing (within : machine.steps ≤ maxSteps) :
    machine.advance machine.store [] 0 = machine := by
  simp [advance, Nat.min_eq_left within]

/-- One run after another. -/
theorem advance_advance (middle final : Store) (first second : List Float) (started more : Nat) :
    (machine.advance middle first started).advance final second more =
      machine.advance final (first ++ second) (started + more) := by
  have counted : min (min (machine.steps + started) maxSteps + more) maxSteps =
      min (machine.steps + (started + more)) maxSteps := by omega
  simp [advance, counted]

private theorem count_eq_advance (machine : Machine) :
    machine.count = machine.advance machine.store [] 1 := rfl

/-- Counting a statement and running what is in it. -/
private theorem count_advance (store : Store) (printed : List Float) (started : Nat) :
    machine.count.advance store printed started = machine.advance store printed (started + 1) := by
  rw [count_eq_advance, advance_advance, List.nil_append, Nat.add_comm]

end Machine

namespace Stmt

mutual

/-- From the first store the statement comes to this outcome and leaves the second one, after it has
printed these values and started so many statements. -/
inductive Yields : Stmt → Store → Outcome → Store → List Float → Nat → Prop where
  | block (sequence : BodyYields body store outcome final printed started) :
      Yields (block body) store outcome final printed (started + 1)
  | assign (evaluates : value.eval store = .ok result) :
      Yields (assign name value) store .completed (store.insert name result) [] 1
  | assign_fails (fails : value.eval store = .error cause) :
      Yields (assign name value) store (.failed cause) store [] 1
  | branch_true (left : lhs.eval store = .ok first) (right : rhs.eval store = .ok second)
      (holds : comparison.holds first second = true)
      (chosen : Yields ifTrue store outcome final printed started) :
      Yields (branch comparison lhs rhs ifTrue ifFalse) store outcome final printed (started + 1)
  | branch_false (left : lhs.eval store = .ok first) (right : rhs.eval store = .ok second)
      (holds : comparison.holds first second = false)
      (chosen : Yields ifFalse store outcome final printed started) :
      Yields (branch comparison lhs rhs ifTrue ifFalse) store outcome final printed (started + 1)
  | lhs_fails (fails : lhs.eval store = .error cause) :
      Yields (branch comparison lhs rhs ifTrue ifFalse) store (.failed cause) store [] 1
  | rhs_fails (left : lhs.eval store = .ok first) (fails : rhs.eval store = .error cause) :
      Yields (branch comparison lhs rhs ifTrue ifFalse) store (.failed cause) store [] 1
  | loop_exits (before : Rounds body rounds store middle printed started)
      (exits : Yields body middle .exited final last more) :
      Yields (loop body) store .completed final (printed ++ last) (started + more + 1)
  | loop_fails (before : Rounds body rounds store middle printed started)
      (fails : Yields body middle (.failed cause) final last more) :
      Yields (loop body) store (.failed cause) final (printed ++ last) (started + more + 1)
  | exit : Yields exit store .exited store [] 1
  | print (evaluates : value.eval store = .ok result) :
      Yields (print value) store .completed store [result] 1
  | print_fails (fails : value.eval store = .error cause) :
      Yields (print value) store (.failed cause) store [] 1

/-- The same for statements in sequence: the first one that does not complete is the last one. -/
inductive BodyYields : List Stmt → Store → Outcome → Store → List Float → Nat → Prop where
  | done : BodyYields [] store .completed store [] 0
  | more (completes : Yields stmt store .completed middle printed started)
      (goesOn : BodyYields rest middle outcome final last further) :
      BodyYields (stmt :: rest) store outcome final (printed ++ last) (started + further)
  | stops (ends : Yields stmt store outcome final printed started) (early : outcome ≠ .completed) :
      BodyYields (stmt :: rest) store outcome final printed started

/-- So many rounds of a body complete one after another. -/
inductive Rounds : Stmt → Nat → Store → Store → List Float → Nat → Prop where
  | none : Rounds body 0 store store [] 0
  | more (completes : Yields body store .completed middle printed started)
      (goesOn : Rounds body rounds middle final last further) :
      Rounds body (rounds + 1) store final (printed ++ last) (started + further)

end

section
variable {stmt body : Stmt} {store middle final : Store} {outcome : Outcome} {printed : List Float}
  {started rounds : Nat}

/-- A statement counts itself at least. -/
theorem Yields.positive (yields : stmt.Yields store outcome final printed started) : 0 < started := by
  cases yields <;> omega

/-- Each round starts a statement. -/
theorem Rounds.le_started (completed : Rounds body rounds store final printed started) :
    rounds ≤ started := by
  induction rounds generalizing store printed started with
  | zero => exact Nat.zero_le _
  | succ rounds ih =>
    cases completed with
    | more completes goesOn =>
      have := completes.positive
      have := ih goesOn
      omega

/-- A completed round before a loop is its first round. -/
theorem Yields.loop_more {last : List Float} {further : Nat}
    (completes : body.Yields store .completed middle printed started)
    (goesOn : (loop body).Yields middle outcome final last further) :
    (loop body).Yields store outcome final (printed ++ last) (started + further) := by
  cases goesOn with
  | loop_exits before exits =>
    have yields := Yields.loop_exits (.more completes before) exits
    rwa [List.append_assoc, Nat.add_assoc started, Nat.add_assoc started] at yields
  | loop_fails before fails =>
    have yields := Yields.loop_fails (.more completes before) fails
    rwa [List.append_assoc, Nat.add_assoc started, Nat.add_assoc started] at yields

/-! ### Execution does what the rules derive -/

/-- Completed rounds bring a loop to where they lead, with a round to spare. -/
private theorem untilExit_rounds {all : Nat}
    (ran : ∀ (machine : Machine) {outcome final printed started}, machine.limit = none →
      started ≤ all → body.Yields machine.store outcome final printed started →
      body.exec all machine = (some outcome, machine.advance final printed started))
    (machine : Machine) (unlimited : machine.limit = none) (within : machine.steps ≤ Machine.maxSteps)
    (enough : started < all) (completed : Rounds body rounds machine.store final printed started) :
    ∃ rest, Action.untilExit (body.exec all) all machine =
      Action.untilExit (body.exec all) (rest + 1) (machine.advance final printed started) := by
  have goes (rest : Nat) : Action.untilExit (body.exec all) (rounds + rest) machine =
      Action.untilExit (body.exec all) rest (machine.advance final printed started) := by
    induction rounds generalizing machine printed started with
    | zero =>
      cases completed
      rw [Nat.zero_add, Machine.advance_nothing within]
    | succ rounds ih =>
      cases completed with
      | more completes goesOn =>
        rw [Nat.succ_add, Action.untilExit, ran machine unlimited (by omega) completes,
          ← Machine.advance_advance]
        exact ih _ unlimited (Machine.advance_steps_le ..) (by omega) goesOn
  have := completed.le_started
  obtain ⟨rest, split⟩ : ∃ rest, all = rounds + (rest + 1) := ⟨all - rounds - 1, by omega⟩
  exact ⟨rest, (congrArg (Action.untilExit _ · machine) split).trans (goes (rest + 1))⟩

end

mutual

/-- What the rules derive, execution does, if its loops may take as many rounds as statements start. -/
theorem exec_of_yields (rounds : Nat) (stmt : Stmt) (machine : Machine) {outcome : Outcome}
    {final : Store} {printed : List Float} {started : Nat}
    (unlimited : machine.limit = none) (enough : started ≤ rounds)
    (yields : stmt.Yields machine.store outcome final printed started) :
    stmt.exec rounds machine = (some outcome, machine.advance final printed started) := by
  cases stmt with
  | block body =>
    cases yields with
    | block sequence =>
      rw [exec, Action.counted_unlimited _ unlimited, ← Machine.count_advance]
      exact execBody_of_yields rounds body _ unlimited machine.count_steps_le (by omega) sequence
  | assign name value =>
    rw [exec, Action.counted_unlimited _ unlimited]
    cases yields with
    | assign evaluates => exact Action.withValue_ok _ machine.count evaluates
    | assign_fails fails => exact Action.withValue_error _ machine.count fails
  | branch comparison lhs rhs ifTrue ifFalse =>
    rw [exec, Action.counted_unlimited _ unlimited]
    cases yields with
    | branch_true left right holds chosen =>
      rw [Action.withValue_ok _ machine.count left,
        Action.withValue_ok _ machine.count right, holds, if_pos rfl,
        ← Machine.count_advance]
      exact exec_of_yields rounds ifTrue _ unlimited (by omega) chosen
    | branch_false left right holds chosen =>
      rw [Action.withValue_ok _ machine.count left,
        Action.withValue_ok _ machine.count right, holds, if_neg Bool.false_ne_true,
        ← Machine.count_advance]
      exact exec_of_yields rounds ifFalse _ unlimited (by omega) chosen
    | lhs_fails fails => exact Action.withValue_error _ machine.count fails
    | rhs_fails left fails =>
      rw [Action.withValue_ok _ machine.count left]
      exact Action.withValue_error _ machine.count fails
  | loop body =>
    rw [exec, Action.counted_unlimited _ unlimited]
    cases yields with
    | loop_exits before exits =>
      rw [← Machine.count_advance]
      obtain ⟨rest, runs⟩ := untilExit_rounds (exec_of_yields rounds body) machine.count unlimited
        machine.count_steps_le (by omega) before
      rw [runs, Action.untilExit, exec_of_yields rounds body _ (by exact unlimited) (by omega) exits,
        Machine.advance_advance]
    | loop_fails before fails =>
      rw [← Machine.count_advance]
      obtain ⟨rest, runs⟩ := untilExit_rounds (exec_of_yields rounds body) machine.count unlimited
        machine.count_steps_le (by omega) before
      rw [runs, Action.untilExit, exec_of_yields rounds body _ (by exact unlimited) (by omega) fails,
        Machine.advance_advance]
  | exit =>
    rw [exec, Action.counted_unlimited _ unlimited]
    cases yields
    rfl
  | print value =>
    rw [exec, Action.counted_unlimited _ unlimited]
    cases yields with
    | print evaluates => exact Action.withValue_ok _ machine.count evaluates
    | print_fails fails => exact Action.withValue_error _ machine.count fails

theorem execBody_of_yields (rounds : Nat) (body : List Stmt) (machine : Machine) {outcome : Outcome}
    {final : Store} {printed : List Float} {started : Nat}
    (unlimited : machine.limit = none) (within : machine.steps ≤ Machine.maxSteps)
    (enough : started ≤ rounds)
    (yields : BodyYields body machine.store outcome final printed started) :
    execBody rounds body machine = (some outcome, machine.advance final printed started) := by
  cases body with
  | nil =>
    cases yields
    rw [Machine.advance_nothing within]
    rfl
  | cons stmt rest =>
    cases yields with
    | more completes goesOn =>
      rw [execBody, Action.andThen, exec_of_yields rounds stmt machine unlimited (by omega) completes]
      rw [← Machine.advance_advance]
      exact execBody_of_yields rounds rest _ unlimited (Machine.advance_steps_le ..) (by omega) goesOn
    | stops ends early =>
      rw [execBody, Action.andThen, exec_of_yields rounds stmt machine unlimited enough ends]
      cases outcome with
      | completed => exact absurd rfl early
      | _ => rfl

end

/-- What a loop does, the rules derive, by induction on its rounds. -/
private theorem loop_yields {body : Stmt} {all : Nat}
    (derives : ∀ (machine : Machine) {outcome final}, machine.limit = none →
      body.exec all machine = (some outcome, final) →
      ∃ printed started, body.Yields machine.store outcome final.store printed started ∧
        final = machine.advance final.store printed started)
    (rounds : Nat) (machine : Machine) {outcome : Outcome} {final : Machine}
    (unlimited : machine.limit = none)
    (ran : Action.untilExit (body.exec all) rounds machine = (some outcome, final)) :
    ∃ printed started, (loop body).Yields machine.store outcome final.store printed (started + 1) ∧
      final = machine.advance final.store printed started := by
  induction rounds generalizing machine with
  | zero => cases ran
  | succ rounds ih =>
    rcases Action.untilExit_cases ran with ⟨middle, completed, goesOn⟩ | ⟨exited, rfl⟩ | ⟨cause, failed, rfl⟩
    · obtain ⟨printed, started, completes, same⟩ := derives machine unlimited completed
      rw [same] at goesOn
      obtain ⟨last, further, yields, ends⟩ := ih (machine.advance middle.store printed started) unlimited goesOn
      rw [Machine.advance_advance] at ends
      exact ⟨printed ++ last, started + further, completes.loop_more yields, ends⟩
    · obtain ⟨last, more, exits, same⟩ := derives machine unlimited exited
      refine ⟨last, more, ?_, same⟩
      simpa using Yields.loop_exits .none exits
    · obtain ⟨last, more, fails, same⟩ := derives machine unlimited failed
      refine ⟨last, more, ?_, same⟩
      simpa using Yields.loop_fails .none fails

mutual

/-- What execution does, the rules derive. -/
theorem yields_of_exec (rounds : Nat) (stmt : Stmt) (machine : Machine) {outcome : Outcome}
    {final : Machine} (unlimited : machine.limit = none)
    (ran : stmt.exec rounds machine = (some outcome, final)) :
    ∃ printed started, stmt.Yields machine.store outcome final.store printed started ∧
      final = machine.advance final.store printed started := by
  cases stmt with
  | block body =>
    rw [exec, Action.counted_unlimited _ unlimited] at ran
    obtain ⟨printed, started, yields, same⟩ :=
      bodyYields_of_execBody rounds body machine.count unlimited machine.count_steps_le ran
    rw [Machine.count_advance] at same
    exact ⟨printed, started + 1, .block yields, same⟩
  | assign name value =>
    rw [exec, Action.counted_unlimited _ unlimited] at ran
    cases evaluates : value.eval machine.store with
    | ok result =>
      rw [Action.withValue_ok _ machine.count evaluates] at ran
      cases ran
      exact ⟨[], 1, .assign evaluates, rfl⟩
    | error cause =>
      rw [Action.withValue_error _ machine.count evaluates] at ran
      cases ran
      exact ⟨[], 1, .assign_fails evaluates, rfl⟩
  | branch comparison lhs rhs ifTrue ifFalse =>
    rw [exec, Action.counted_unlimited _ unlimited] at ran
    cases left : lhs.eval machine.store with
    | error cause =>
      rw [Action.withValue_error _ machine.count left] at ran
      cases ran
      exact ⟨[], 1, .lhs_fails left, rfl⟩
    | ok first =>
      rw [Action.withValue_ok _ machine.count left] at ran
      cases right : rhs.eval machine.store with
      | error cause =>
        rw [Action.withValue_error _ machine.count right] at ran
        cases ran
        exact ⟨[], 1, .rhs_fails left right, rfl⟩
      | ok second =>
        rw [Action.withValue_ok _ machine.count right] at ran
        cases holds : comparison.holds first second with
        | true =>
          rw [holds, if_pos rfl] at ran
          obtain ⟨printed, started, chosen, same⟩ := yields_of_exec rounds ifTrue machine.count unlimited ran
          rw [Machine.count_advance] at same
          exact ⟨printed, started + 1, .branch_true left right holds chosen, same⟩
        | false =>
          rw [holds, if_neg Bool.false_ne_true] at ran
          obtain ⟨printed, started, chosen, same⟩ := yields_of_exec rounds ifFalse machine.count unlimited ran
          rw [Machine.count_advance] at same
          exact ⟨printed, started + 1, .branch_false left right holds chosen, same⟩
  | loop body =>
    rw [exec, Action.counted_unlimited _ unlimited] at ran
    obtain ⟨printed, started, yields, same⟩ :=
      loop_yields (yields_of_exec rounds body) rounds machine.count unlimited ran
    rw [Machine.count_advance] at same
    exact ⟨printed, started + 1, yields, same⟩
  | exit =>
    rw [exec, Action.counted_unlimited _ unlimited] at ran
    cases ran
    exact ⟨[], 1, .exit, rfl⟩
  | print value =>
    rw [exec, Action.counted_unlimited _ unlimited] at ran
    cases evaluates : value.eval machine.store with
    | ok result =>
      rw [Action.withValue_ok _ machine.count evaluates] at ran
      cases ran
      exact ⟨[result], 1, .print evaluates, rfl⟩
    | error cause =>
      rw [Action.withValue_error _ machine.count evaluates] at ran
      cases ran
      exact ⟨[], 1, .print_fails evaluates, rfl⟩

theorem bodyYields_of_execBody (rounds : Nat) (body : List Stmt) (machine : Machine)
    {outcome : Outcome} {final : Machine} (unlimited : machine.limit = none)
    (within : machine.steps ≤ Machine.maxSteps)
    (ran : execBody rounds body machine = (some outcome, final)) :
    ∃ printed started, BodyYields body machine.store outcome final.store printed started ∧
      final = machine.advance final.store printed started := by
  cases body with
  | nil =>
    cases ran
    exact ⟨[], 0, .done, (Machine.advance_nothing within).symm⟩
  | cons stmt rest =>
    rw [execBody] at ran
    rcases Action.andThen_cases (stmt.exec rounds) (execBody rounds rest) machine with
      ⟨middle, completed, goesOn⟩ | ⟨early, same⟩
    · rw [goesOn] at ran
      obtain ⟨printed, started, completes, same⟩ := yields_of_exec rounds stmt machine unlimited completed
      rw [same] at ran
      obtain ⟨last, further, yields, ends⟩ := bodyYields_of_execBody rounds rest
        (machine.advance middle.store printed started) unlimited (Machine.advance_steps_le ..) ran
      rw [Machine.advance_advance] at ends
      exact ⟨printed ++ last, started + further, .more completes yields, ends⟩
    · rw [same] at ran
      obtain ⟨printed, started, yields, ends⟩ := yields_of_exec rounds stmt machine unlimited ran
      refine ⟨printed, started, .stops yields ?_, ends⟩
      rintro rfl
      exact early (congrArg Prod.fst ran)

end

/-! ### The rules leave no choice -/

/-- The rounds before the end of a loop are determined, as a round that completes does not end the loop. -/
private theorem rounds_unique {body : Stmt}
    (unique : ∀ {store outcome final printed started outcome' final' printed' started'},
      body.Yields store outcome final printed started →
      body.Yields store outcome' final' printed' started' →
      (outcome, final, printed, started) = (outcome', final', printed', started'))
    {rounds rounds' : Nat} {store middle middle' final final' : Store} {outcome outcome' : Outcome}
    {printed last printed' last' : List Float} {started more started' more' : Nat}
    (before : Rounds body rounds store middle printed started)
    (ends : body.Yields middle outcome final last more) (notCompleted : outcome ≠ .completed)
    (before' : Rounds body rounds' store middle' printed' started')
    (ends' : body.Yields middle' outcome' final' last' more') (notCompleted' : outcome' ≠ .completed) :
    (outcome, final, printed ++ last, started + more) =
      (outcome', final', printed' ++ last', started' + more') := by
  induction rounds generalizing store rounds' printed started printed' started' with
  | zero =>
    cases before
    cases before' with
    | none => simpa using unique ends ends'
    | more completes goesOn => exact absurd (congrArg Prod.fst (unique ends completes)) notCompleted
  | succ rounds ih =>
    cases before with
    | more completes goesOn =>
      cases before' with
      | none => exact absurd (congrArg Prod.fst (unique ends' completes)) notCompleted'
      | more completes' goesOn' =>
        cases unique completes completes'
        have same := ih goesOn goesOn'
        simp only [Prod.mk.injEq, List.append_assoc, Nat.add_assoc] at same ⊢
        simp [same]

mutual

/-- A statement yields one thing only. -/
theorem yields_unique (stmt : Stmt) {store final final' : Store} {outcome outcome' : Outcome}
    {printed printed' : List Float} {started started' : Nat}
    (yields : stmt.Yields store outcome final printed started)
    (yields' : stmt.Yields store outcome' final' printed' started') :
    (outcome, final, printed, started) = (outcome', final', printed', started') := by
  cases stmt with
  | block body =>
    obtain ⟨sequence⟩ := yields
    obtain ⟨sequence'⟩ := yields'
    cases bodyYields_unique body sequence sequence'
    rfl
  | branch comparison lhs rhs ifTrue ifFalse =>
    cases yields with
    | branch_true left right holds chosen =>
      cases yields' with
      | branch_true left' right' holds' chosen' =>
        cases yields_unique ifTrue chosen chosen'
        rfl
      | _ => simp_all
    | branch_false left right holds chosen =>
      cases yields' with
      | branch_false left' right' holds' chosen' =>
        cases yields_unique ifFalse chosen chosen'
        rfl
      | _ => simp_all
    | _ => cases yields' <;> simp_all
  | loop body =>
    cases yields with
    | loop_exits before exits =>
      cases yields' with
      | loop_exits before' exits' =>
        have same := rounds_unique (yields_unique body) before exits nofun before' exits' nofun
        simp_all
      | loop_fails before' fails' =>
        have same := rounds_unique (yields_unique body) before exits nofun before' fails' nofun
        simp_all
    | loop_fails before fails =>
      cases yields' with
      | loop_exits before' exits' =>
        have same := rounds_unique (yields_unique body) before fails nofun before' exits' nofun
        simp_all
      | loop_fails before' fails' =>
        have same := rounds_unique (yields_unique body) before fails nofun before' fails' nofun
        simp_all
  | _ => cases yields <;> cases yields' <;> simp_all

theorem bodyYields_unique (body : List Stmt) {store final final' : Store} {outcome outcome' : Outcome}
    {printed printed' : List Float} {started started' : Nat}
    (yields : BodyYields body store outcome final printed started)
    (yields' : BodyYields body store outcome' final' printed' started') :
    (outcome, final, printed, started) = (outcome', final', printed', started') := by
  cases body with
  | nil =>
    cases yields
    cases yields'
    rfl
  | cons stmt rest =>
    cases yields with
    | more completes goesOn =>
      cases yields' with
      | more completes' goesOn' =>
        cases yields_unique stmt completes completes'
        cases bodyYields_unique rest goesOn goesOn'
        rfl
      | stops ends early => exact absurd (congrArg Prod.fst (yields_unique stmt ends completes)) early
    | stops ends early =>
      cases yields' with
      | more completes' goesOn' =>
        exact absurd (congrArg Prod.fst (yields_unique stmt ends completes')) early
      | stops ends' early' => exact yields_unique stmt ends ends'

end

variable {machine : Machine}

/-- The runs that end are those that the rules derive. -/
theorem ends_iff_yields (stmt : Stmt) (unlimited : machine.limit = none) (outcome : Outcome)
    (final : Machine) : stmt.Ends machine outcome final ↔
      ∃ printed started, stmt.Yields machine.store outcome final.store printed started ∧
        final = machine.advance final.store printed started := by
  constructor
  · rintro ⟨rounds, ran⟩
    exact yields_of_exec rounds stmt machine unlimited ran
  · rintro ⟨printed, started, yields, same⟩
    refine ⟨started, ?_⟩
    rw [same]
    exact exec_of_yields started stmt machine unlimited (Nat.le_refl _) yields

/-- A run that the rules derive is executed as a whole, as long as the counter can count it. -/
private theorem machine_exec_of_yields (stmt : Stmt) (unlimited : machine.limit = none)
    {outcome : Outcome} {final : Store} {printed : List Float} {started : Nat}
    (counts : machine.steps + started ≤ Machine.maxSteps)
    (yields : stmt.Yields machine.store outcome final printed started) :
    machine.exec stmt = some (outcome, machine.advance final printed started) := by
  have enough : started ≤ machine.rounds := by
    have : Machine.maxSteps ≤ UInt64.size := Nat.sub_le ..
    simp only [Machine.rounds, unlimited]
    omega
  rw [Machine.exec, exec_of_yields machine.rounds stmt machine unlimited enough yields]

/-- Execution without a limit computes what the rules derive, and nothing else: it ends as they say, it
leaves their store, it prints their values and it counts their statements. The rules derive one result
at most, and execution goes on forever where they derive none. -/
theorem exec_follows_rules (stmt : Stmt) (machine : Machine) (unlimited : machine.limit = none) :
    (∀ outcome final, stmt.Ends machine outcome final ↔
      ∃ printed started, stmt.Yields machine.store outcome final.store printed started ∧
        final = machine.advance final.store printed started) ∧
    (∀ outcome final printed started, machine.steps + started ≤ Machine.maxSteps →
      stmt.Yields machine.store outcome final printed started →
      machine.exec stmt = some (outcome,
        { store := final
          printer := machine.printer.printLines (printed.map Printer.valueText)
          limit := none
          steps := machine.steps + started })) ∧
    (stmt.Endless machine ↔
      ¬ ∃ outcome final printed started, stmt.Yields machine.store outcome final printed started) ∧
    ∀ outcome final printed started outcome' final' printed' started',
      stmt.Yields machine.store outcome final printed started →
      stmt.Yields machine.store outcome' final' printed' started' →
      (outcome, final, printed, started) = (outcome', final', printed', started') := by
  refine ⟨ends_iff_yields stmt unlimited, ?_, ?_, ?_⟩
  · intro outcome final printed started counts yields
    rw [machine_exec_of_yields stmt unlimited counts yields, Machine.advance,
      Nat.min_eq_left counts, unlimited]
  · rw [endless_iff]
    refine not_congr ⟨?_, ?_⟩
    · rintro ⟨outcome, final, ends⟩
      obtain ⟨printed, started, yields, -⟩ := (ends_iff_yields stmt unlimited outcome final).mp ends
      exact ⟨outcome, final.store, printed, started, yields⟩
    · rintro ⟨outcome, final, printed, started, yields⟩
      exact ⟨outcome, machine.advance final printed started,
        (ends_iff_yields stmt unlimited ..).mpr ⟨printed, started, yields, rfl⟩⟩
  · intro outcome final printed started outcome' final' printed' started' yields yields'
    exact yields_unique stmt yields yields'

/-- A loop of two rounds, which sets its variable in the first one and exits in the second one. -/
theorem two_rounds_follow_rules :
    Machine.exec ⟨Store.empty.insert "x" 0.0, .buffer "", none, 7⟩
      (loop (block [print (.var "x"),
        branch .eq (.var "x") (.constant ⟨0x3FF0000000000000⟩) exit
          (assign "x" (.constant ⟨0x3FF0000000000000⟩))])) =
      some (.completed, ⟨(Store.empty.insert "x" 0.0).insert "x" 1.0, .buffer "0.0\n1.0\n", none, 16⟩) := by
  have bound (store : Store) (value : Float) :
      (Expr.var "x").eval (store.insert "x" value) = .ok value := by
    simp [Expr.eval, Store.lookup, Store.get_insert]
  have one (store : Store) : (Expr.constant ⟨0x3FF0000000000000⟩).eval store = .ok 1.0 := rfl
  have first : Comparison.eq.holds 0.0 1.0 = false := by decide
  have second : Comparison.eq.holds 1.0 1.0 = true := by decide
  have printed : Printer.valueText 0.0 = "0.0" ∧ Printer.valueText 1.0 = "1.0" := by decide +kernel
  refine (exec_follows_rules _ _ rfl).2.1 _ _ [0.0, 1.0] 9 (by decide) (.loop_exits
    (.more (.block (.more (.print (bound ..))
      (.more (.branch_false (bound ..) (one _) first (.assign (one _))) .done))) .none)
    (.block (.more (.print (bound ..)) (.stops (.branch_true (bound ..) (one _) second .exit) nofun))))
    |>.trans ?_
  simp [Printer.printLines, Printer.println, printed]

end Stmt
end LoopLang
