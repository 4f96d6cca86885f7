import LoopLang.Proofs.Events

/-! What the bindings that a run finds have to do with it. A run sees the variables that its program reads
and no others, and it changes those that the program assigns and no others. Where it finds more
variables bound than another run, it does the same things in the same order, until the other one misses
a binding and fails. -/
namespace LoopLang

/-- Among the known variables the second store has the bindings of the first one, and besides them it
binds extra variables only. -/
def Store.Extends (known extra : String → Prop) (first second : Store) : Prop :=
  ∀ name, known name → second.get? name = first.get? name ∨ first.get? name = none ∧ extra name

variable {known extra : String → Prop} {first second : Store}

/-- The same writes do not part two stores. -/
theorem Store.Extends.insertAll (extended : Store.Extends known extra first second)
    (pairs : List (String × Float)) :
    Store.Extends known extra (first.insertAll pairs) (second.insertAll pairs) := by
  intro name knows
  rw [get_insertAll, get_insertAll]
  cases pairs.reverse.lookup name with
  | some value => exact .inl rfl
  | none => exact extended name knows

/-- An expression has the same value in both stores, or the first one misses a variable. -/
theorem Expr.eval_extends {value : Expr} (extended : Store.Extends known extra first second)
    (reads : ∀ name, value.Mentions name → known name) :
    value.eval second = value.eval first ∨
      ∃ name, extra name ∧ value.eval first = .error (.undefinedVariable name) := by
  induction value with
  | constant number => exact .inl rfl
  | var name =>
    rcases extended name (reads name rfl) with same | ⟨unbound, more⟩
    · simp [eval, Store.lookup, same]
    · exact .inr ⟨name, more, Store.lookup_eq_error_iff.mpr ⟨unbound, rfl⟩⟩
  | binary operator lhs rhs ihLeft ihRight =>
    rcases ihLeft fun name read => reads name (.inl read) with left | ⟨name, more, missing⟩
    · rcases ihRight fun name read => reads name (.inr read) with right | ⟨name, more, missing⟩
      · simp only [eval, left, right, true_or]
      · cases value : lhs.eval first with
        | ok result => exact .inr ⟨name, more, eval_binary_eq_error_iff.mpr (.inr ⟨result, value, .inl missing⟩)⟩
        | error cause =>
          have fails {store : Store} (value : lhs.eval store = .error cause) :
              (binary operator lhs rhs).eval store = .error cause := eval_binary_eq_error_iff.mpr (.inl value)
          exact .inl ((fails (left.trans value)).trans (fails value).symm)
    · exact .inr ⟨name, more, eval_binary_eq_error_iff.mpr (.inl missing)⟩

/-- The variable that an expression misses is one that it reads and that is not bound. -/
theorem Expr.eval_undefined {value : Expr} {store : Store} {name : String}
    (missing : value.eval store = .error (.undefinedVariable name)) :
    value.Mentions name ∧ store.get? name = none := by
  induction value with
  | constant number => cases missing
  | var other =>
    obtain ⟨unbound, same⟩ := Store.lookup_eq_error_iff.mp missing
    cases same
    exact ⟨rfl, unbound⟩
  | binary operator lhs rhs ihLeft ihRight =>
    rcases eval_binary_eq_error_iff.mp missing with left | ⟨_, -, right | ⟨_, -, applied⟩⟩
    · exact ⟨.inl (ihLeft left).1, (ihLeft left).2⟩
    · exact ⟨.inr (ihRight right).1, (ihRight right).2⟩
    · cases (Operator.apply_eq_error_iff.mp applied).2.2

namespace Traced

/-- The action assigns no variable but its own ones. -/
def AssignsOwn (own : String → Prop) (traced : Traced) : Prop :=
  ∀ machine name value, .assigned name value ∈ traced.events machine → own name

theorem assignsOwn (own : String → Prop) : Law (fun _ => True) own (AssignsOwn own) where
  still _ machine name value happens := by cases happens
  assign value mine machine name other happens := by
    cases List.mem_singleton.mp happens
    exact mine
  print value machine name other happens := by cases List.mem_singleton.mp happens
  counted := by
    intro traced owns machine name value happens
    cases exceeded : machine.count.exceeded? with
    | some limit => simp [(counted_spent machine traced exceeded).2] at happens
    | none =>
      simp only [(counted_free machine traced exceeded).2, List.mem_cons, reduceCtorEq, false_or] at happens
      exact owns _ _ _ happens
  withValue := by
    intro expr traced _ owns machine name value happens
    cases evaluates : expr.eval machine.store with
    | ok result =>
      rw [(withValue_ok machine traced evaluates).2] at happens
      exact owns result _ _ _ happens
    | error cause =>
      rw [(withValue_error machine traced evaluates).2] at happens
      cases happens
  andThen := by
    intro first second owns ownsNext machine name value happens
    by_cases completed : (first.action machine).1 = some .completed
    · rw [(andThen_completed machine second completed).2] at happens
      rcases List.mem_append.mp happens with early | late
      · exact owns _ _ _ early
      · exact ownsNext _ _ _ late
    · rw [(andThen_stopped machine second completed).2] at happens
      exact owns _ _ _ happens
  takeExit owns := owns

/-- A variable that the action misses is a known one, and it is unbound even at the end. -/
def Misses (known : String → Prop) (traced : Traced) : Prop :=
  ∀ machine name, (traced.action machine).1 = some (.failed (.undefinedVariable name)) →
    known name ∧ (machine.after (traced.events machine)).store.get? name = none

theorem misses (known : String → Prop) : Law known (fun _ => True) (Misses known) where
  still fails machine name missing := absurd missing (fails _)
  assign value mine machine name missing := by cases missing
  print value machine name missing := by cases missing
  counted := by
    intro traced misses machine name missing
    cases exceeded : machine.count.exceeded? with
    | some limit =>
      rw [(counted_spent machine traced exceeded).1] at missing
      cases missing
    | none =>
      obtain ⟨ending, events⟩ := counted_free machine traced exceeded
      rw [ending] at missing
      rw [events]
      exact misses machine.count name missing
  withValue := by
    intro expr traced reads misses machine name missing
    cases evaluates : expr.eval machine.store with
    | ok result =>
      obtain ⟨ending, events⟩ := withValue_ok machine traced evaluates
      rw [ending] at missing
      rw [events]
      exact misses result machine name missing
    | error cause =>
      obtain ⟨ending, events⟩ := withValue_error machine traced evaluates
      rw [ending] at missing
      cases missing
      rw [events]
      obtain ⟨read, unbound⟩ := Expr.eval_undefined evaluates
      exact ⟨reads name read, unbound⟩
  andThen := by
    intro first second misses missesNext machine name missing
    by_cases completed : (first.action machine).1 = some .completed
    · obtain ⟨ending, events⟩ := andThen_completed machine second completed
      rw [ending] at missing
      rw [events, Machine.after_append]
      exact missesNext _ name missing
    · obtain ⟨ending, events⟩ := andThen_stopped machine second completed
      rw [ending] at missing
      rw [events]
      exact misses machine name missing
  takeExit := by
    intro traced misses machine name missing
    obtain ⟨outcome, ending, ended⟩ := Option.map_eq_some_iff.mp missing
    cases outcome with
    | failed cause =>
      cases ended
      exact misses machine name ending
    | _ => cases ended

/-- The action goes on alike from both stores, or it misses an extra variable in the first one, and what
it has done until then it does from the second one as well. -/
def Follows (known extra : String → Prop) (traced : Traced) : Prop :=
  ∀ machine second, Store.Extends known extra machine.store second →
    ((traced.action (machine.withStore second)).1 = (traced.action machine).1 ∧
      traced.events (machine.withStore second) = traced.events machine) ∨
    ∃ name, extra name ∧ (traced.action machine).1 = some (.failed (.undefinedVariable name)) ∧
      traced.events machine <+: traced.events (machine.withStore second)

/-- Counting does not look at the store, so the budget is spent from both or from neither. -/
theorem follows (known extra : String → Prop) : Law known (fun _ => True) (Follows known extra) where
  still _ machine second _ := .inl ⟨rfl, rfl⟩
  assign value _ machine second _ := .inl ⟨rfl, rfl⟩
  print value machine second _ := .inl ⟨rfl, rfl⟩
  counted := by
    intro traced follows machine second extended
    cases exceeded : machine.count.exceeded? with
    | some limit =>
      obtain ⟨ending, events⟩ := counted_spent machine traced exceeded
      obtain ⟨endingToo, eventsToo⟩ := counted_spent (machine.withStore second) traced exceeded
      exact .inl ⟨endingToo.trans ending.symm, eventsToo.trans events.symm⟩
    | none =>
      obtain ⟨ending, events⟩ := counted_free machine traced exceeded
      obtain ⟨endingToo, eventsToo⟩ := counted_free (machine.withStore second) traced exceeded
      rw [ending, events, endingToo, eventsToo]
      rcases follows machine.count second extended with ⟨same, alike⟩ | ⟨name, more, missing, begins⟩
      · exact .inl ⟨same, congrArg _ alike⟩
      · exact .inr ⟨name, more, missing, List.cons_prefix_cons.mpr ⟨rfl, begins⟩⟩
  withValue := by
    intro expr traced reads follows machine second extended
    rcases Expr.eval_extends extended reads with same | ⟨name, more, missing⟩
    · cases evaluates : expr.eval machine.store with
      | ok result =>
        obtain ⟨ending, events⟩ := withValue_ok machine traced evaluates
        obtain ⟨endingToo, eventsToo⟩ :=
          withValue_ok (machine.withStore second) traced (same.trans evaluates)
        rw [ending, events, endingToo, eventsToo]
        exact follows result machine second extended
      | error cause =>
        obtain ⟨ending, events⟩ := withValue_error machine traced evaluates
        obtain ⟨endingToo, eventsToo⟩ :=
          withValue_error (machine.withStore second) traced (same.trans evaluates)
        exact .inl ⟨endingToo.trans ending.symm, eventsToo.trans events.symm⟩
    · obtain ⟨ending, events⟩ := withValue_error machine traced missing
      exact .inr ⟨name, more, ending, events ▸ List.nil_prefix⟩
  andThen := by
    intro first next follows followsNext machine second extended
    rcases follows machine second extended with ⟨same, alike⟩ | ⟨name, more, missing, begins⟩
    · by_cases completed : (first.action machine).1 = some .completed
      · obtain ⟨ending, events⟩ := andThen_completed machine next completed
        obtain ⟨endingToo, eventsToo⟩ :=
          andThen_completed (machine.withStore second) next (same.trans completed)
        rw [alike, Machine.withStore_after] at endingToo eventsToo
        have extendedNext := extended.insertAll ((first.events machine).filterMap Event.write?)
        rw [← Machine.after_store] at extendedNext
        rw [ending, events, endingToo, eventsToo]
        rcases followsNext _ _ extendedNext with ⟨sameNext, alikeNext⟩ | ⟨name, more, missing, begins⟩
        · exact .inl ⟨sameNext, congrArg _ alikeNext⟩
        · exact .inr ⟨name, more, missing, (List.prefix_append_right_inj _).mpr begins⟩
      · obtain ⟨ending, events⟩ := andThen_stopped machine next completed
        obtain ⟨endingToo, eventsToo⟩ :=
          andThen_stopped (machine.withStore second) next (same.symm ▸ completed)
        rw [ending, events, endingToo, eventsToo]
        exact .inl ⟨same, alike⟩
    · have stopped : (first.action machine).1 ≠ some .completed := by simp [missing]
      obtain ⟨ending, events⟩ := andThen_stopped machine next stopped
      refine .inr ⟨name, more, ending.trans missing, ?_⟩
      rw [events]
      exact begins.trans (List.prefix_append ..)
  takeExit := by
    intro traced follows machine second extended
    rcases follows machine second extended with ⟨same, alike⟩ | ⟨name, more, missing, begins⟩
    · exact .inl ⟨congrArg (Option.map Action.endLoop) same, alike⟩
    · exact .inr ⟨name, more, congrArg (Option.map Action.endLoop) missing, begins⟩

end Traced

/-- The second store keeps the bindings of the first one. -/
def Store.Within (first second : Store) : Prop :=
  ∀ name value, first.get? name = some value → second.get? name = some value

theorem Store.Within.extends (within : first.Within second) :
    Store.Extends (fun _ => True) (fun _ => True) first second := by
  intro name _
  cases bound : first.get? name with
  | some value => exact .inl (within name value bound)
  | none => exact .inr ⟨rfl, trivial⟩

theorem Store.Within.insertAll (within : first.Within second) (pairs : List (String × Float)) :
    (first.insertAll pairs).Within (second.insertAll pairs) := by
  intro name value bound
  rcases within.extends.insertAll pairs name trivial with same | ⟨unbound, -⟩
  · exact same.trans bound
  · cases unbound.symm.trans bound

/-- Gives the value zero to those of the names that have no value. -/
def Store.zeroed (store : Store) (names : List String) : Store :=
  store.insertAll ((names.filter fun name => !store.contains name).map fun name => (name, 0.0))

private theorem Store.get_zeroed (store : Store) (names : List String) (name : String) :
    (store.zeroed names).get? name =
      (store.get? name).or (if name ∈ names then some 0.0 else none) := by
  rw [zeroed, get_insertAll_zeros]
  cases bound : store.get? name with
  | some value => simp [contains, bound]
  | none => simp [contains, bound]

private theorem Store.within_zeroed (store : Store) (names : List String) :
    store.Within (store.zeroed names) := by
  intro name value bound
  rw [get_zeroed, bound, Option.some_or]

namespace Stmt

/-- The writes of a run leave alone what it does not assign. -/
private theorem get_writes_untouched {rounds : Nat} {stmt : Stmt} {machine : Machine}
    {name : String}
    (untouched : ∀ value, .assigned name value ∉ stmt.events rounds machine) (store : Store) :
    (store.insertAll ((stmt.events rounds machine).filterMap Event.write?)).get? name =
      store.get? name := by
  refine store.get_insertAll_untouched fun value written => ?_
  obtain ⟨event, happens, writes⟩ := List.mem_filterMap.mp written
  cases event with
  | assigned target result =>
    cases writes
    exact untouched value happens
  | _ => cases writes

/-- A run assigns the targets of its assignments only. -/
private theorem assigns_of_event {rounds : Nat} {stmt : Stmt} {machine : Machine} {name : String}
    {value : Float}
    (happens : .assigned name value ∈ stmt.events rounds machine) : stmt.Assigns name :=
  (Traced.assignsOwn stmt.Assigns).stmt rounds stmt (fun _ _ => trivial) (fun _ assigned => assigned)
    machine name value happens

/-- A run that fails for a variable has read it, and it is unbound even then. -/
private theorem reads_of_undefined {rounds : Nat} {stmt : Stmt} {machine : Machine} {name : String}
    (missing : (stmt.exec rounds machine).1 = some (.failed (.undefinedVariable name))) :
    stmt.Reads name ∧ (stmt.exec rounds machine).2.store.get? name = none := by
  rw [exec_after]
  rw [← traced_action] at missing
  exact (Traced.misses stmt.Reads).stmt rounds stmt (fun _ read => read) (fun _ _ => trivial)
    machine name missing

/-- A bound variable stays bound throughout a run. -/
theorem exec_bound (rounds : Nat) (stmt : Stmt) {machine : Machine} {name : String}
    (bound : (machine.store.get? name).isSome) :
    ((stmt.exec rounds machine).2.store.get? name).isSome := by
  rw [exec_after, Machine.after_store]
  exact Store.bound_insertAll _ bound

/-- Where all variables that a statement reads are bound, no run of it misses one. -/
theorem not_undefined_of_bound {stmt : Stmt} {machine : Machine}
    (bound : ∀ name, stmt.Reads name → (machine.store.get? name).isSome) (rounds : Nat) (name : String) :
    (stmt.exec rounds machine).1 ≠ some (.failed (.undefinedVariable name)) := by
  intro missing
  obtain ⟨read, unbound⟩ := reads_of_undefined missing
  have still := exec_bound rounds stmt (bound name read)
  rw [unbound] at still
  cases still

/-- A run never shows more steps than the counter can count. -/
theorem exec_steps_le (rounds : Nat) (stmt : Stmt) (machine : Machine) :
    (stmt.exec rounds machine).2.steps ≤ Machine.maxSteps := by
  obtain ⟨later, first⟩ := events_head rounds stmt machine
  have counted : machine.count.steps ≤ Machine.maxSteps := machine.count_steps_le
  rw [exec_after, first, Machine.after_cons, Machine.happen, Machine.after_steps counted]
  exact Nat.min_le_right ..

section
variable {stmt : Stmt} {machine : Machine}

/-- From a second store a run goes on as from the first one, or the first one misses an extra variable. -/
private theorem exec_follows (reads : ∀ name, stmt.Reads name → known name)
    (extended : Store.Extends known extra machine.store second) (rounds : Nat) :
    stmt.exec rounds (machine.withStore second) = ((stmt.exec rounds machine).1,
        (stmt.exec rounds machine).2.withStore
          (second.insertAll ((stmt.events rounds machine).filterMap Event.write?))) ∨
      ∃ name, extra name ∧ (stmt.exec rounds machine).1 = some (.failed (.undefinedVariable name)) := by
  have law := (Traced.follows known extra).stmt rounds stmt reads (fun _ _ => trivial) machine second extended
  rw [traced_action] at law
  rcases law with ⟨same, alike⟩ | ⟨name, more, missing, -⟩
  · refine .inl (Prod.ext same ?_)
    rw [exec_after, exec_after, events, alike, Machine.withStore_after]
    rfl
  · exact .inr ⟨name, more, missing⟩

/-- With more bindings, the same things happen first. -/
private theorem events_follow (within : machine.store.Within second) (rounds : Nat) :
    stmt.events rounds machine <+: stmt.events rounds (machine.withStore second) := by
  have law := (Traced.follows _ _).stmt rounds stmt (fun _ _ => trivial) (fun _ _ => trivial)
    machine second within.extends
  rcases law with ⟨-, alike⟩ | ⟨name, -, -, begins⟩
  · rw [events, events]
    exact alike ▸ List.prefix_refl _
  · exact begins

/-- With more bindings, a run gets at least as far as it does without them. -/
private theorem reaches_further (within : machine.store.Within second) (rounds : Nat) :
    ∃ lines, (stmt.exec rounds (machine.withStore second)).2.printer =
        (stmt.exec rounds machine).2.printer.printLines lines ∧
      (stmt.exec rounds machine).2.steps ≤ (stmt.exec rounds (machine.withStore second)).2.steps := by
  obtain ⟨later, whole⟩ := stmt.events_follow within rounds
  obtain ⟨store, reached⟩ : ∃ store, (stmt.exec rounds (machine.withStore second)).2 =
      ((stmt.exec rounds machine).2.withStore store).after later := by
    refine ⟨second.insertAll ((stmt.events rounds machine).filterMap Event.write?), ?_⟩
    rw [exec_after rounds stmt (machine.withStore second), ← whole, Machine.after_append,
      Machine.withStore_after, exec_after rounds stmt machine]
  rw [reached]
  refine ⟨_, Machine.after_printer _ later, ?_⟩
  have counted : ((stmt.exec rounds machine).2.withStore store).steps ≤ Machine.maxSteps :=
    exec_steps_le rounds stmt machine
  rw [Machine.after_steps counted]
  exact Nat.le_min.mpr ⟨Nat.le_add_right .., counted⟩

/-- With more bindings, a run that misses none goes on in the same way. -/
theorem exec_of_within (within : machine.store.Within second) (rounds : Nat)
    (missed : ∀ name, (stmt.exec rounds machine).1 ≠ some (.failed (.undefinedVariable name))) :
    ∃ store, stmt.exec rounds (machine.withStore second) =
        ((stmt.exec rounds machine).1, (stmt.exec rounds machine).2.withStore store) ∧
      (stmt.exec rounds machine).2.store.Within store ∧
      ∀ name, (∀ value, .assigned name value ∉ stmt.events rounds machine) →
        store.get? name = second.get? name := by
  rcases stmt.exec_follows (fun _ _ => trivial) within.extends rounds with same | ⟨name, -, missing⟩
  · refine ⟨_, same, ?_, fun name untouched => get_writes_untouched untouched second⟩
    rw [exec_after, Machine.after_store]
    exact within.insertAll _
  · exact absurd missing (missed name)

end

/-- Execution sees the variables of the program only and touches those only that it assigns. From two
stores that agree on the collected names it does the same, step by step, and they agree on them again
when it ends, if it ends. Whatever comes of it, a variable that is nowhere assigned keeps what it had,
and a bound one stays bound. -/
theorem only_own_variables_matter (stmt : Stmt) (machine : Machine) :
    (∀ second : Store, (∀ name ∈ stmt.names, second.get? name = machine.store.get? name) →
      (∀ rounds, ∃ store, stmt.exec rounds (machine.withStore second) =
          ((stmt.exec rounds machine).1, (stmt.exec rounds machine).2.withStore store) ∧
        ∀ name ∈ stmt.names, store.get? name = (stmt.exec rounds machine).2.store.get? name) ∧
      (∀ outcome final, machine.exec stmt = some (outcome, final) →
        ∃ store, (machine.withStore second).exec stmt = some (outcome, final.withStore store) ∧
          ∀ name ∈ stmt.names, store.get? name = final.store.get? name) ∧
      (stmt.Endless (machine.withStore second) ↔ stmt.Endless machine)) ∧
    ∀ rounds name,
      (¬ stmt.Assigns name →
        (stmt.exec rounds machine).2.store.get? name = machine.store.get? name) ∧
      ((machine.store.get? name).isSome → ((stmt.exec rounds machine).2.store.get? name).isSome) := by
  constructor
  · intro second agree
    have extended : Store.Extends (· ∈ stmt.names) (fun _ => False) machine.store second :=
      fun name known => .inl (agree name known)
    have reads : ∀ name, stmt.Reads name → name ∈ stmt.names :=
      fun name read => stmt.mem_names_iff.mpr (stmt.mentions_iff.mpr (.inr read))
    have alike (rounds : Nat) : ∃ store, stmt.exec rounds (machine.withStore second) =
          ((stmt.exec rounds machine).1, (stmt.exec rounds machine).2.withStore store) ∧
        ∀ name ∈ stmt.names, store.get? name = (stmt.exec rounds machine).2.store.get? name := by
      rcases stmt.exec_follows reads extended rounds with same | ⟨name, never, -⟩
      · refine ⟨_, same, fun name known => ?_⟩
        rw [exec_after, Machine.after_store]
        exact (extended.insertAll _ name known).resolve_right fun ⟨_, never⟩ => never
      · exact never.elim
    refine ⟨alike, ?_, ?_⟩
    · intro outcome final ran
      rw [Machine.exec_eq_some_iff] at ran
      obtain ⟨store, same, agreed⟩ := alike machine.rounds
      rw [ran] at same agreed
      exact ⟨store, Machine.exec_eq_some_iff.mpr same, agreed⟩
    · refine forall_congr' fun rounds => ?_
      obtain ⟨store, same, -⟩ := alike rounds
      rw [same]
  · intro rounds name
    refine ⟨fun free => ?_, exec_bound rounds stmt⟩
    rw [exec_after, Machine.after_store]
    exact get_writes_untouched (fun value happens => free (assigns_of_event happens)) machine.store

/-- A copied variable is printed, whether or not the store holds another one besides. -/
theorem other_variable_unnoticed :
    (∃ store, Machine.exec ⟨(Store.empty.insert "z" 0.0).insert "y" 1.0, .buffer "", none, 0⟩
        (block [assign "x" (.var "y"), print (.var "x")]) =
        some (.completed, ⟨store, .buffer "1.0\n", none, 3⟩) ∧ store.get? "x" = some 1.0) ∧
    ∀ rounds, (exec rounds (block [assign "x" (.var "y"), print (.var "x")])
      ⟨(Store.empty.insert "z" 0.0).insert "y" 1.0, .buffer "", none, 0⟩).2.store.get? "z" = some 0.0 := by
  let copy : Stmt := block [assign "x" (.var "y"), print (.var "x")]
  let start : Machine := ⟨Store.empty.insert "y" 1.0, .buffer "", none, 0⟩
  let other : Machine := ⟨(Store.empty.insert "z" 0.0).insert "y" 1.0, .buffer "", none, 0⟩
  have printed : Printer.valueText 1.0 = "1.0" := by decide +kernel
  have bound (store : Store) (name : String) (value : Float) :
      (Expr.var name).eval (store.insert name value) = .ok value := by
    simp [Expr.eval, Store.lookup, Store.get_insert]
  have ran : start.exec copy = some (.completed,
      ⟨(Store.empty.insert "y" 1.0).insert "x" 1.0, .buffer "1.0\n", none, 3⟩) := by
    rw [Machine.exec_eq_some_iff]
    simp [copy, start, exec, execBody, Action.andThen, Action.ended, Action.counted_unlimited,
      Action.withValue_ok, bound, printed, Machine.count, Machine.assign, Machine.println,
      Printer.println, Machine.maxSteps, UInt64.size]
  have agree : ∀ name ∈ copy.names, other.store.get? name = start.store.get? name := by
    intro name held
    have mentions := copy.mem_names_iff.mp held
    have named : "x" = name ∨ "y" = name := by
      simpa [copy, Mentions, BodyMentions, Expr.Mentions, or_assoc, or_comm] using mentions
    rcases named with rfl | rfl <;> simp [other, start, Store.get_insert]
  obtain ⟨store, same, agreed⟩ :=
    ((only_own_variables_matter copy start).1 other.store agree).2.1 _ _ ran
  refine ⟨⟨store, same, ?_⟩, fun rounds => ?_⟩
  · rw [agreed "x" (copy.mem_names_iff.mpr (.inl (.inl rfl)))]
    simp [Store.get_insert]
  · have kept := ((only_own_variables_matter copy other).2 rounds "z").1 (by
      simp [copy, Assigns, BodyAssigns])
    exact kept.trans (by simp [other, Store.get_insert])

/-- Bindings that a run does not miss change nothing about it. With more of them, a run that fails for no
missing variable goes on in the same way, and one that never ends never ends. A run that does miss one
has been no further than the run with more bindings gets. So the zeros that a program could be given
beforehand for its unbound variables keep every run that misses none, and with them no run does. -/
theorem extra_bindings_unnoticed (stmt : Stmt) (machine : Machine) :
    (∀ second : Store, machine.store.Within second →
      (∀ rounds outcome final, stmt.exec rounds machine = (some outcome, final) →
        (∀ name, outcome ≠ .failed (.undefinedVariable name)) →
        ∃ store, stmt.exec rounds (machine.withStore second) = (some outcome, final.withStore store) ∧
          final.store.Within store ∧
          ∀ name, (∀ value, .assigned name value ∉ stmt.events rounds machine) →
            store.get? name = second.get? name) ∧
      (∀ outcome final, machine.exec stmt = some (outcome, final) →
        (∀ name, outcome ≠ .failed (.undefinedVariable name)) →
        ∃ store, (machine.withStore second).exec stmt = some (outcome, final.withStore store) ∧
          final.store.Within store) ∧
      (stmt.Endless machine → stmt.Endless (machine.withStore second)) ∧
      ∀ rounds name final, stmt.exec rounds machine = (some (.failed (.undefinedVariable name)), final) →
        ∀ enough, rounds ≤ enough →
          stmt.events enough machine <+: stmt.events enough (machine.withStore second) ∧
          ∃ lines, (stmt.exec enough (machine.withStore second)).2.printer =
              final.printer.printLines lines ∧
            final.steps ≤ (stmt.exec enough (machine.withStore second)).2.steps) ∧
    (∀ outcome final, stmt.Ends (machine.withStore (machine.store.zeroed stmt.names)) outcome final →
      ∀ name, outcome ≠ .failed (.undefinedVariable name)) ∧
    ∀ outcome final, stmt.Ends machine outcome final →
      (∀ name, outcome ≠ .failed (.undefinedVariable name)) →
      ∃ store, stmt.Ends (machine.withStore (machine.store.zeroed stmt.names)) outcome
          (final.withStore store) ∧
        final.store.Within store := by
  have kept {second : Store} (within : machine.store.Within second) {rounds outcome final}
      (ran : stmt.exec rounds machine = (some outcome, final))
      (missed : ∀ name, outcome ≠ .failed (.undefinedVariable name)) :
      ∃ store, stmt.exec rounds (machine.withStore second) = (some outcome, final.withStore store) ∧
        final.store.Within store ∧
        ∀ name, (∀ value, .assigned name value ∉ stmt.events rounds machine) →
          store.get? name = second.get? name := by
    have goesOn := stmt.exec_of_within within rounds
    rw [ran] at goesOn
    exact goesOn fun name missing => missed name (Option.some.inj missing)
  refine ⟨fun second within => ⟨fun rounds outcome final ran missed => kept within ran missed, ?_, ?_, ?_⟩,
    ?_, ?_⟩
  · intro outcome final ran missed
    obtain ⟨store, same, still, -⟩ := kept within (Machine.exec_eq_some_iff.mp ran) missed
    exact ⟨store, Machine.exec_eq_some_iff.mpr same, still⟩
  · intro endless rounds
    obtain ⟨store, same, -⟩ := stmt.exec_of_within within rounds (by simp [endless rounds])
    rw [same]
    exact endless rounds
  · intro rounds name final ran enough longer
    have further := stmt.reaches_further within enough
    rw [exec_extends rounds enough longer stmt _ _ _ ran] at further
    exact ⟨events_follow within enough, further⟩
  · rintro outcome final ⟨rounds, ran⟩ name rfl
    refine not_undefined_of_bound (fun read reads => ?_) rounds name (congrArg Prod.fst ran)
    have named : read ∈ stmt.names := stmt.mem_names_iff.mpr (stmt.mentions_iff.mpr (.inr reads))
    simp [Machine.withStore, Store.get_zeroed, named]
  · rintro outcome final ⟨rounds, ran⟩ missed
    obtain ⟨store, same, still, -⟩ := kept (machine.store.within_zeroed stmt.names) ran missed
    exact ⟨store, ⟨rounds, same⟩, still⟩

/-- Two lines, the second of which reads a variable. Without it the run stops behind the first line, with
it the same line comes first, and a further variable changes nothing. -/
theorem bound_variable_prints_on :
    (∃ lines, (exec 1 (block [print (.constant ⟨0⟩), print (.var "x")])
      ⟨Store.empty.insert "x" 1.0, .buffer "", none, 0⟩).2.printer =
        (Printer.buffer "0.0\n").printLines lines) ∧
    ∃ store, Machine.exec ⟨(Store.empty.insert "z" 0.0).insert "x" 1.0, .buffer "", none, 0⟩
      (block [print (.constant ⟨0⟩), print (.var "x")]) =
        some (.completed, ⟨store, .buffer "0.0\n1.0\n", none, 3⟩) := by
  let lines : Stmt := block [print (.constant ⟨0⟩), print (.var "x")]
  let unbound : Machine := ⟨Store.empty, .buffer "", none, 0⟩
  let start : Machine := ⟨Store.empty.insert "x" 1.0, .buffer "", none, 0⟩
  have zero (store : Store) : (Expr.constant ⟨0⟩).eval store = .ok 0.0 := rfl
  have bound (store : Store) : (Expr.var "x").eval (store.insert "x" 1.0) = .ok 1.0 := by
    simp [Expr.eval, Store.lookup, Store.get_insert]
  have missing : (Expr.var "x").eval Store.empty = .error (.undefinedVariable "x") := by
    have nothing : Store.empty.get? "x" = none := Store.get_empty "x"
    rw [Expr.eval, Store.lookup, nothing]
  have printed : Printer.valueText 0.0 = "0.0" ∧ Printer.valueText 1.0 = "1.0" := by decide +kernel
  have stopped : lines.exec 1 unbound = (some (.failed (.undefinedVariable "x")),
      ⟨Store.empty, .buffer "0.0\n", none, 3⟩) := by
    simp [lines, unbound, exec, execBody, Action.andThen, Action.counted_unlimited, Action.withValue_ok,
      Action.withValue_error, zero, missing, printed, Machine.count, Machine.println, Printer.println,
      Machine.maxSteps, UInt64.size]
  have ran : start.exec lines =
      some (.completed, ⟨Store.empty.insert "x" 1.0, .buffer "0.0\n1.0\n", none, 3⟩) := by
    rw [Machine.exec_eq_some_iff]
    simp [lines, start, exec, execBody, Action.andThen, Action.ended, Action.counted_unlimited,
      Action.withValue_ok, zero, bound, printed, Machine.count, Machine.println, Printer.println,
      Machine.maxSteps, UInt64.size]
  have more : unbound.store.Within start.store := by
    intro name value held
    cases (Store.get_empty name).symm.trans held
  have further : start.store.Within ((Store.empty.insert "z" 0.0).insert "x" 1.0) := by
    intro name value held
    have nothing : Store.empty.get? name = none := Store.get_empty name
    by_cases same : "x" = name
    · simpa [start, Store.get_insert, same] using held
    · simp [start, Store.get_insert, same, nothing] at held
  obtain ⟨-, -, -, parts⟩ := (extra_bindings_unnoticed lines unbound).1 _ more
  obtain ⟨-, goesOn, -⟩ := (extra_bindings_unnoticed lines start).1 _ further
  obtain ⟨-, shown, same, -⟩ := parts 1 "x" _ stopped 1 (Nat.le_refl 1)
  obtain ⟨store, ends, -⟩ := goesOn _ _ ran (by simp)
  exact ⟨⟨shown, same⟩, store, ends⟩

end Stmt
end LoopLang
