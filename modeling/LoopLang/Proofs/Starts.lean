import LoopLang.Proofs.Runs

/-! What a run starts. A statement is started whenever control gets to it, and what it finds then is the
machine of that moment. The moments of a run, in order, say how many statements it executes and where
it was when each of them began, whatever the step counter shows. Facts about actions and what they
start are proved one way of putting actions together at a time. -/
namespace LoopLang

namespace Action

/-- The machines that the statements started by an action find, in order. -/
abbrev Starts := Machine → List Machine

/-- A counted action is started itself, and starts nothing else when the budget is spent. -/
def countedStarts (starts : Starts) : Starts := fun machine =>
  machine :: if machine.count.exceeded?.isSome then [] else starts machine.count

/-- An action on a value starts nothing when there is no value. -/
def valueStarts (value : Expr) (starts : Float → Starts) : Starts := fun machine =>
  match value.eval machine.store with
  | .ok result => starts result machine
  | .error _ => []

/-- The second action adds its starts if the first one completes. -/
def thenStarts (first : Action) (starts next : Starts) : Starts := fun machine =>
  starts machine ++ match first machine with
    | (some .completed, middle) => next middle
    | _ => []

/-- One round after another adds its starts as long as the rounds complete. -/
def roundStarts (action : Action) (starts : Starts) : Nat → Starts
  | 0 => fun _ => []
  | rounds + 1 => thenStarts action starts (roundStarts action starts rounds)

end Action

namespace Stmt
open LoopLang.Action

mutual

/-- The machines that the statements started in a run find, the statement itself first, when every loop
is given so many rounds. -/
def starts (rounds : Nat) : Stmt → Starts
  | block body => countedStarts (bodyStarts rounds body)
  | assign _ value => countedStarts (valueStarts value fun _ _ => [])
  | branch comparison lhs rhs ifTrue ifFalse => countedStarts <|
      valueStarts lhs fun left => valueStarts rhs fun right machine =>
        if comparison.holds left right then ifTrue.starts rounds machine
        else ifFalse.starts rounds machine
  | loop body => countedStarts (roundStarts (body.exec rounds) (body.starts rounds) rounds)
  | exit => countedStarts fun _ => []
  | print value => countedStarts (valueStarts value fun _ _ => [])

/-- The same for statements in sequence. -/
def bodyStarts (rounds : Nat) : List Stmt → Starts
  | [] => fun _ => []
  | stmt :: rest => thenStarts (stmt.exec rounds) (stmt.starts rounds) (bodyStarts rounds rest)

end

/-- The statement started after so many others finds this machine. -/
def StartsAt (stmt : Stmt) (machine : Machine) (position : Nat) (moment : Machine) : Prop :=
  ∃ rounds, (stmt.starts rounds machine)[position]? = some moment

/-- A statement is the first one that it starts. -/
theorem starts_head (rounds : Nat) (stmt : Stmt) (machine : Machine) :
    ∃ rest, stmt.starts rounds machine = machine :: rest := by
  cases stmt <;> exact ⟨_, rfl⟩

end Stmt

namespace Action

theorem countedStarts_unlimited (starts : Starts) {machine : Machine}
    (unlimited : machine.limit = none) :
    countedStarts starts machine = machine :: starts machine.count := by
  simp [countedStarts, Machine.exceeded?, Machine.count, unlimited]

theorem valueStarts_ok {value : Expr} {result : Float} (starts : Float → Starts) (machine : Machine)
    (evaluates : value.eval machine.store = .ok result) :
    valueStarts value starts machine = starts result machine := by
  rw [valueStarts, evaluates]

theorem valueStarts_error {value : Expr} {cause : RunError} (starts : Float → Starts)
    (machine : Machine) (fails : value.eval machine.store = .error cause) :
    valueStarts value starts machine = [] := by
  rw [valueStarts, fails]

/-- What a sequence starts: the second action adds its starts behind a first one that completes. -/
theorem thenStarts_cases (first second : Action) (starts next : Starts) (machine : Machine) :
    (∃ middle, first machine = (some .completed, middle) ∧
      andThen first second machine = second middle ∧
      thenStarts first starts next machine = starts machine ++ next middle) ∨
    ((first machine).1 ≠ some .completed ∧ andThen first second machine = first machine ∧
      thenStarts first starts next machine = starts machine) := by
  rw [andThen, thenStarts]
  rcases first machine with ⟨_ | outcome, middle⟩
  · exact .inr ⟨nofun, rfl, List.append_nil _⟩
  · cases outcome with
    | completed => exact .inl ⟨middle, rfl, rfl, rfl⟩
    | _ => exact .inr ⟨nofun, rfl, List.append_nil _⟩

/-- What a loop makes of an outcome that ends it. -/
def endLoop : Outcome → Outcome
  | .exited => .completed
  | other => other

/-- Takes in an exit, as a loop does. -/
def takeExit (action : Action) : Action := fun machine =>
  ((action machine).1.map endLoop, (action machine).2)

/-- A loop has no exit left to take in. -/
private theorem takeExit_untilExit (action : Action) (rounds : Nat) :
    takeExit (untilExit action rounds) = untilExit action rounds := by
  induction rounds with
  | zero => rfl
  | succ rounds ih =>
    funext machine
    rw [takeExit, untilExit]
    rcases action machine with ⟨_ | outcome, middle⟩
    · rfl
    · cases outcome with
      | completed => exact congrFun ih middle
      | exited => rfl
      | failed cause => rfl

/-- A loop is its body and then the loop with a round less, with the exit taken in. -/
theorem untilExit_succ (action : Action) (rounds : Nat) :
    untilExit action (rounds + 1) = takeExit (andThen action (untilExit action rounds)) := by
  funext machine
  rw [takeExit, andThen, untilExit]
  rcases action machine with ⟨_ | outcome, middle⟩
  · rfl
  · cases outcome with
    | completed => exact (congrFun (takeExit_untilExit action rounds) middle).symm
    | exited => rfl
    | failed cause => rfl

/-- What rounds and exits keep holds of loops. -/
theorem loop_by_rounds {Holds : Action → Starts → Prop} {action : Action} {starts : Starts}
    (none : Holds (fun machine => (none, machine)) fun _ => [])
    (round : ∀ {next : Action} {nextStarts : Starts}, Holds next nextStarts →
      Holds (andThen action next) (thenStarts action starts nextStarts))
    (taken : ∀ {rounds : Action} {roundsStarts : Starts}, Holds rounds roundsStarts →
      Holds (takeExit rounds) roundsStarts) (rounds : Nat) :
    Holds (untilExit action rounds) (roundStarts action starts rounds) := by
  induction rounds with
  | zero => exact none
  | succ rounds ih =>
    rw [untilExit_succ, roundStarts]
    exact taken (round ih)

/-- A relation between actions and what they start that all statements have, because every way of
putting actions together keeps it. -/
structure Compositional (rounds : Nat) (Holds : Action → Starts → Prop) : Prop where
  completed : Holds (ended .completed) fun _ => []
  exited : Holds (ended .exited) fun _ => []
  assign (name : String) (value : Float) :
    Holds (fun machine => (some .completed, machine.assign name value)) fun _ => []
  println (line : String) :
    Holds (fun machine => (some .completed, machine.println line)) fun _ => []
  counted {action : Action} {starts : Starts} :
    Holds action starts → Holds (counted action) (countedStarts starts)
  withValue (value : Expr) {action : Float → Action} {starts : Float → Starts} :
    (∀ result, Holds (action result) (starts result)) →
    Holds (withValue value action) (valueStarts value starts)
  andThen {first second : Action} {starts next : Starts} :
    Holds first starts → Holds second next →
    Holds (andThen first second) (thenStarts first starts next)
  loop (body : Stmt) : Holds (body.exec rounds) (body.starts rounds) →
    Holds (untilExit (body.exec rounds) rounds)
      (roundStarts (body.exec rounds) (body.starts rounds) rounds)

namespace Compositional
variable {rounds : Nat} {Holds : Action → Starts → Prop}

mutual

theorem exec (keeps : Compositional rounds Holds) (stmt : Stmt) :
    Holds (stmt.exec rounds) (stmt.starts rounds) := by
  cases stmt with
  | block body => exact keeps.counted (keeps.execBody body)
  | assign name value =>
    exact keeps.counted (keeps.withValue value fun result => keeps.assign name result)
  | branch comparison lhs rhs ifTrue ifFalse =>
    refine keeps.counted (keeps.withValue lhs fun left => keeps.withValue rhs fun right => ?_)
    cases comparison.holds left right with
    | true => exact keeps.exec ifTrue
    | false => exact keeps.exec ifFalse
  | loop body => exact keeps.counted (keeps.loop body (keeps.exec body))
  | exit => exact keeps.counted keeps.exited
  | print value =>
    exact keeps.counted (keeps.withValue value fun result => keeps.println _)

theorem execBody (keeps : Compositional rounds Holds) (body : List Stmt) :
    Holds (Stmt.execBody rounds body) (Stmt.bodyStarts rounds body) := by
  cases body with
  | nil => exact keeps.completed
  | cons stmt rest => exact keeps.andThen (keeps.exec stmt) (keeps.execBody rest)

end

end Compositional

/-- The step counter counts what is started, as far as it can count. -/
def Counts (action : Action) (starts : Starts) : Prop :=
  ∀ machine, machine.steps ≤ Machine.maxSteps →
    (action machine).2.steps = min (machine.steps + (starts machine).length) Machine.maxSteps

private theorem counts_andThen {first second : Action} {starts next : Starts}
    (counts : Counts first starts)
    (countsNext : Counts second next) : Counts (andThen first second) (thenStarts first starts next) := by
  intro machine within
  have before := counts machine within
  rcases thenStarts_cases first second starts next machine with
    ⟨middle, completed, ran, started⟩ | ⟨-, ran, started⟩
  · simp only [completed] at before
    have after := countsNext middle (by omega)
    rw [ran, started, List.length_append]
    omega
  · rw [ran, started, before]

theorem counts (rounds : Nat) : Compositional rounds Counts where
  completed machine within := (Nat.min_eq_left within).symm
  exited machine within := (Nat.min_eq_left within).symm
  assign name value machine within := (Nat.min_eq_left within).symm
  println line machine within := (Nat.min_eq_left within).symm
  counted := by
    intro action starts counts machine within
    have inside := counts machine.count (Nat.min_le_right ..)
    have : machine.count.steps = min (machine.steps + 1) Machine.maxSteps := rfl
    rw [counted, countedStarts]
    cases machine.count.exceeded? with
    | some limit => rfl
    | none =>
      simp only [Option.isSome_none, Bool.false_eq_true, if_false, List.length_cons]
      omega
  withValue value := by
    intro action starts counts machine within
    cases evaluates : value.eval machine.store with
    | ok result =>
      rw [withValue_ok _ _ evaluates, valueStarts_ok _ _ evaluates]
      exact counts result machine within
    | error cause =>
      rw [withValue_error _ _ evaluates, valueStarts_error _ _ evaluates]
      exact (Nat.min_eq_left within).symm
  andThen := counts_andThen
  loop body counts := by
    exact loop_by_rounds (fun machine within => (Nat.min_eq_left within).symm)
      (counts_andThen counts) id rounds

/-- An action that does not end within the rounds of a loop starts as many statements at least. -/
def Lasts (rounds : Nat) (action : Action) (starts : Starts) : Prop :=
  ∀ machine, (action machine).1 = none → rounds ≤ (starts machine).length

/-- What starts so many statements in every round adds them to what follows it. -/
private theorem lasts_andThen {rounds more least : Nat} {first second : Action}
    {starts next : Starts}
    (lasts : Lasts rounds first starts) (busy : ∀ machine, least ≤ (starts machine).length)
    (lastsNext : Lasts more second next) :
    Lasts (min rounds (least + more)) (andThen first second) (thenStarts first starts next) := by
  intro machine endless
  rcases thenStarts_cases first second starts next machine with
    ⟨middle, completed, ran, started⟩ | ⟨-, ran, started⟩
  · rw [ran] at endless
    have before := busy machine
    have after := lastsNext middle endless
    rw [started, List.length_append]
    omega
  · rw [ran] at endless
    have before := lasts machine endless
    rw [started]
    omega

/-- Each round that completes has started the body of the loop at least. -/
theorem lasts (rounds : Nat) : Compositional rounds (Lasts rounds) where
  completed machine endless := nomatch endless
  exited machine endless := nomatch endless
  assign name value machine endless := nomatch endless
  println line machine endless := nomatch endless
  counted := by
    intro action starts lasts machine endless
    rw [counted] at endless
    rw [countedStarts]
    cases exceeded : machine.count.exceeded? with
    | some limit => simp [exceeded] at endless
    | none =>
      simp only [exceeded] at endless
      exact Nat.le_succ_of_le (lasts machine.count endless)
  withValue value := by
    intro action starts lasts machine endless
    cases evaluates : value.eval machine.store with
    | ok result =>
      rw [withValue_ok _ _ evaluates] at endless
      rw [valueStarts_ok _ _ evaluates]
      exact lasts result machine endless
    | error cause =>
      rw [withValue_error _ _ evaluates] at endless
      cases endless
  andThen lasts lastsNext := by
    have both := lasts_andThen lasts (fun _ => Nat.zero_le _) lastsNext
    rwa [Nat.zero_add, Nat.min_self] at both
  loop body lasts := by
    suffices ∀ more ≤ rounds, Lasts more (untilExit (body.exec rounds) more)
        (roundStarts (body.exec rounds) (body.starts rounds) more) from this rounds (Nat.le_refl _)
    intro more enough
    induction more with
    | zero => exact fun machine endless => Nat.zero_le _
    | succ more ih =>
      have busy (machine : Machine) : 1 ≤ (body.starts rounds machine).length := by
        obtain ⟨rest, first⟩ := Stmt.starts_head rounds body machine
        simp [first]
      have next := lasts_andThen lasts busy (ih (by omega))
      have fewest : min rounds (1 + more) = more + 1 := by omega
      rw [fewest] at next
      intro machine endless
      rw [untilExit_succ, takeExit, Option.map_eq_none_iff] at endless
      exact next machine endless

end Action
end LoopLang
