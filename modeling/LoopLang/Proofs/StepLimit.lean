import LoopLang.Proofs.NaturalSemantics
import LoopLang.Proofs.Starts

/-! What a limit on the steps does to a run. As long as the limit is not reached, the limited run is the
unlimited one. The first statement that exceeds it is the last one that is started: the run fails there
and leaves what that statement found, which is what it finds in the unlimited run as well. So a limited
run always ends, and a higher limit only lets it get further. -/
namespace LoopLang

/-- The same machine with a limit on its steps. -/
def Machine.limited (machine : Machine) (limit : Nat) : Machine := { machine with limit := some limit }

/-- The earlier machine has printed no more than the later one. -/
def Machine.Before (earlier later : Machine) : Prop :=
  ∃ lines, later.printer = earlier.printer.printLines lines

theorem Machine.Before.refl (machine : Machine) : machine.Before machine := ⟨[], rfl⟩

theorem Machine.Before.trans {first second third : Machine} :
    first.Before second → second.Before third → first.Before third := by
  rintro ⟨lines, grown⟩ ⟨more, grownOn⟩
  exact ⟨lines ++ more, by rw [grownOn, grown, Printer.printLines_append]⟩

namespace Action
variable {limit start : Nat}

/-- How a run from so many steps without a limit relates to the one with the limit. Each run comes as
the starts and the result. Either the limit is never exceeded, or the limited run fails at the moment
that exceeds it, whatever the unlimited run does then. -/
inductive Truncates (limit start : Nat) : List Machine → Option Outcome × Machine →
    List Machine → Option Outcome × Machine → Prop where
  | fits {starts : List Machine} {ending : Option Outcome} {final : Machine}
      (unlimited : final.limit = none) (counted : final.steps = start + starts.length)
      (enough : final.steps ≤ limit) :
      Truncates limit start starts (ending, final)
        (starts.map (·.limited limit)) (ending, final.limited limit)
  | cut {starts : List Machine} {free : Option Outcome × Machine} {moment : Machine}
      (there : starts[limit - start]? = some moment) (unlimited : moment.limit = none)
      (spent : moment.steps = limit) :
      Truncates limit start starts free
        ((starts.take (limit - start + 1)).map (·.limited limit))
        (some (.failed (.budgetExhausted limit)), (moment.limited limit).count)

namespace Truncates
variable {starts more starts' : List Machine} {free free' bounded : Option Outcome × Machine}

/-- What comes before within the limit does not change how the rest is truncated. -/
theorem append {middle : Machine} (counted : middle.steps = start + starts.length)
    (enough : middle.steps ≤ limit) (rest : Truncates limit middle.steps more free starts' bounded) :
    Truncates limit start (starts ++ more) free (starts.map (·.limited limit) ++ starts') bounded := by
  cases rest with
  | fits unlimited restCounted restEnough =>
    rw [← List.map_append]
    exact .fits unlimited (by rw [List.length_append]; omega) restEnough
  | cut there unlimited spent =>
    have later : limit - start = starts.length + (limit - middle.steps) := by omega
    have kept : (starts ++ more).take (limit - start + 1) =
        starts ++ more.take (limit - middle.steps + 1) := by
      rw [later, Nat.add_assoc, List.take_length_add_append]
    rw [← List.map_append, ← kept]
    refine .cut ?_ unlimited spent
    rw [later, List.getElem?_append_right (Nat.le_add_right ..), Nat.add_sub_cancel_left, there]

/-- What comes behind a cut does not matter. -/
theorem cut_append {moment : Machine} (there : starts[limit - start]? = some moment)
    (unlimited : moment.limit = none) (spent : moment.steps = limit) (more : List Machine)
    (free : Option Outcome × Machine) :
    Truncates limit start (starts ++ more) free
      ((starts.take (limit - start + 1)).map (·.limited limit))
      (some (.failed (.budgetExhausted limit)), (moment.limited limit).count) := by
  have inside := (List.getElem?_eq_some_iff.mp there).1
  have kept : (starts ++ more).take (limit - start + 1) = starts.take (limit - start + 1) :=
    List.take_append_of_le_length inside
  rw [← kept]
  exact .cut ((List.getElem?_append_left inside).trans there) unlimited spent

/-- The two ways to be truncated. -/
theorem fits_or_cut (truncates : Truncates limit start starts free starts' bounded) :
    (free.2.limit = none ∧ free.2.steps = start + starts.length ∧ free.2.steps ≤ limit ∧
      bounded = (free.1, free.2.limited limit)) ∨
    ∃ moment, starts[limit - start]? = some moment ∧ moment.limit = none ∧ moment.steps = limit ∧
      bounded = (some (.failed (.budgetExhausted limit)), (moment.limited limit).count) := by
  cases truncates with
  | fits unlimited counted enough => exact .inl ⟨unlimited, counted, enough, rfl⟩
  | cut there unlimited spent => exact .inr ⟨_, there, unlimited, spent, rfl⟩

/-- A limited run starts as many statements as the limit leaves, and one more. -/
theorem length_le (truncates : Truncates limit start starts free starts' bounded) :
    starts'.length ≤ limit - start + 1 := by
  cases truncates with
  | fits unlimited counted enough =>
    rw [List.length_map]
    omega
  | cut there unlimited spent =>
    rw [List.length_map]
    exact List.length_take_le ..

/-- A statement that is too much is where the limited run stops. -/
theorem cut_of_start (truncates : Truncates limit start starts free starts' bounded) {moment : Machine}
    (there : starts[limit - start]? = some moment) :
    moment.limit = none ∧ moment.steps = limit ∧
      bounded = (some (.failed (.budgetExhausted limit)), (moment.limited limit).count) := by
  rcases truncates.fits_or_cut with ⟨-, counted, enough, -⟩ | ⟨other, found, unlimited, spent, cut⟩
  · have inside := (List.getElem?_eq_some_iff.mp there).1
    omega
  · cases there.symm.trans found
    exact ⟨unlimited, spent, cut⟩

end Truncates

/-- From every machine without a limit, within the limit, the action is truncated. -/
def Truncated (limit : Nat) (action : Action) (starts : Starts) : Prop :=
  ∀ machine, machine.limit = none → machine.steps ≤ limit →
    Truncates limit machine.steps (starts machine) (action machine)
      (starts (machine.limited limit)) (action (machine.limited limit))

/-- A machine that has spent its budget is left as it is, but for the counter. -/
private theorem counted_spent (machine : Machine) (limited : machine.limit = some limit)
    (small : limit < Machine.maxSteps) (spent : limit ≤ machine.steps) (action : Action)
    (starts : Starts) :
    counted action machine = (some (.failed (.budgetExhausted limit)), machine.count) ∧
      countedStarts starts machine = [machine] := by
  have exceeded : machine.count.exceeded? = some limit := by
    have beyond : limit < min (machine.steps + 1) Machine.maxSteps := by omega
    rw [Machine.exceeded?, Machine.count, limited]
    exact Option.filter_some_pos (decide_eq_true beyond)
  simp [counted, countedStarts, exceeded]

/-- Below its limit a machine does what an action does. -/
private theorem counted_below (machine : Machine) (limited : machine.limit = some limit)
    (below : machine.steps < limit) (action : Action) (starts : Starts) :
    counted action machine = action machine.count ∧
      countedStarts starts machine = machine :: starts machine.count := by
  have exceeded : machine.count.exceeded? = none := by
    have within : ¬ limit < min (machine.steps + 1) Machine.maxSteps := by omega
    rw [Machine.exceeded?, Machine.count, limited]
    exact Option.filter_some_neg (decide_eq_false within)
  simp [counted, countedStarts, exceeded]

private theorem truncated_andThen {first second : Action} {starts next : Starts}
    (truncated : Truncated limit first starts) (truncatedNext : Truncated limit second next) :
    Truncated limit (andThen first second) (thenStarts first starts next) := by
  intro machine unlimited enough
  have part := truncated machine unlimited enough
  rw [andThen, andThen, thenStarts, thenStarts]
  generalize first machine = free, starts machine = started,
    first (machine.limited limit) = bounded, starts (machine.limited limit) = started' at part ⊢
  cases part with
  | @fits ending final unlimited counted enough =>
    cases ending with
    | none => simpa using .fits unlimited counted enough
    | some outcome =>
      cases outcome with
      | completed => exact .append counted enough (truncatedNext final unlimited enough)
      | _ => simpa using .fits unlimited counted enough
  | cut there unlimited spent =>
    rw [List.append_nil]
    exact .cut_append there unlimited spent _ _

/-- A run that is cut fails, so no loop takes anything in that it would not take in otherwise. -/
private theorem truncated_takeExit {action : Action} {starts : Starts}
    (truncated : Truncated limit action starts) :
    Truncated limit (takeExit action) starts := by
  intro machine unlimited enough
  have part := truncated machine unlimited enough
  rw [takeExit, takeExit]
  generalize action machine = free, starts machine = started,
    action (machine.limited limit) = bounded, starts (machine.limited limit) = started' at part ⊢
  cases part with
  | fits unlimited counted enough => exact .fits unlimited counted enough
  | cut there unlimited spent => exact .cut there unlimited spent

/-- Every statement is truncated by a limit that the counter can exceed. Below the limit both runs count and
go on; at the limit the statement itself is too much. -/
theorem truncated (rounds : Nat) (small : limit < Machine.maxSteps) :
    Compositional rounds (Truncated limit) where
  completed machine unlimited enough := .fits unlimited rfl enough
  exited machine unlimited enough := .fits unlimited rfl enough
  assign name value machine unlimited enough := .fits unlimited rfl enough
  println line machine unlimited enough := .fits unlimited rfl enough
  counted := by
    intro action starts truncated machine unlimited enough
    rw [counted_unlimited action unlimited, countedStarts_unlimited starts unlimited]
    by_cases below : machine.steps < limit
    · obtain ⟨ran, started⟩ := counted_below (machine.limited limit) rfl below action starts
      have counts : machine.count.steps = machine.steps + 1 := Nat.min_eq_left (by omega)
      have inside := truncated machine.count unlimited (by omega)
      rw [ran, started]
      change Truncates limit machine.steps ([machine] ++ starts machine.count) _
        ([machine].map (·.limited limit) ++ _) _
      exact .append counts (by omega) inside
    · obtain ⟨ran, started⟩ :=
        counted_spent (machine.limited limit) rfl small (Nat.le_of_not_lt below) action starts
      have spent : machine.steps = limit := by omega
      have here : (machine :: starts machine.count)[limit - machine.steps]? = some machine := by
        simp [spent]
      have cut := Truncates.cut_append here unlimited spent [] (action machine.count)
      rw [ran, started]
      simpa [spent] using cut
  withValue value := by
    intro action starts truncated machine unlimited enough
    cases evaluates : value.eval machine.store with
    | ok result =>
      rw [withValue_ok _ machine evaluates, withValue_ok _ (machine.limited limit) evaluates,
        valueStarts_ok _ machine evaluates, valueStarts_ok _ (machine.limited limit) evaluates]
      exact truncated result machine unlimited enough
    | error cause =>
      rw [withValue_error _ machine evaluates, withValue_error _ (machine.limited limit) evaluates,
        valueStarts_error _ machine evaluates, valueStarts_error _ (machine.limited limit) evaluates]
      exact .fits unlimited rfl enough
  andThen := truncated_andThen
  loop body truncated :=
    loop_by_rounds (fun machine unlimited enough => .fits unlimited rfl enough)
      (truncated_andThen truncated) truncated_takeExit rounds

/-- In the order in which they come up, the machines of a run have printed more and more. -/
def Grows (action : Action) (starts : Starts) : Prop :=
  ∀ machine, (machine :: starts machine ++ [(action machine).2]).Pairwise Machine.Before

/-- The machines of one run and of the next one. -/
private theorem pairwise_join {machine middle final : Machine} {first second : List Machine}
    (before : (machine :: first ++ [middle]).Pairwise Machine.Before)
    (after : (middle :: second ++ [final]).Pairwise Machine.Before) :
    (machine :: (first ++ second) ++ [final]).Pairwise Machine.Before := by
  rw [← List.cons_append, List.append_assoc]
  obtain ⟨sorted, -, reaches⟩ := List.pairwise_append.mp before
  obtain ⟨goesOn, sortedNext⟩ := List.pairwise_cons.mp after
  refine List.pairwise_append.mpr ⟨sorted, sortedNext, fun earlier held later comes => ?_⟩
  exact (reaches earlier held middle (List.mem_singleton_self middle)).trans (goesOn later comes)

/-- A statement that is started earlier has seen less of the output. -/
private theorem before_of_le {machine final earlier later : Machine} {started : List Machine}
    (sorted : (machine :: started ++ [final]).Pairwise Machine.Before) {i j : Nat}
    (there : started[i]? = some earlier) (found : started[j]? = some later) (ordered : i ≤ j) :
    earlier.Before later := by
  obtain ⟨insideEarlier, rfl⟩ := List.getElem?_eq_some_iff.mp there
  obtain ⟨insideLater, rfl⟩ := List.getElem?_eq_some_iff.mp found
  rcases Nat.eq_or_lt_of_le ordered with rfl | before
  · exact .refl _
  · have inner := (List.pairwise_cons.mp (List.pairwise_append.mp sorted).1).2
    exact List.pairwise_iff_getElem.mp inner i j insideEarlier insideLater before

private theorem grows_andThen {first second : Action} {starts next : Starts}
    (grows : Grows first starts)
    (growsNext : Grows second next) : Grows (andThen first second) (thenStarts first starts next) := by
  intro machine
  have before := grows machine
  rcases thenStarts_cases first second starts next machine with
    ⟨middle, completed, ran, started⟩ | ⟨-, ran, started⟩
  · rw [completed] at before
    rw [ran, started]
    exact pairwise_join before (growsNext middle)
  · rwa [ran, started]

theorem grows (rounds : Nat) : Compositional rounds Grows where
  completed machine := by simp [ended, Machine.Before.refl]
  exited machine := by simp [ended, Machine.Before.refl]
  assign name value machine := by simpa using ⟨[], rfl⟩
  println line machine := by simpa using ⟨[line], rfl⟩
  counted := by
    intro action starts grows machine
    have same : machine.Before machine.count := ⟨[], rfl⟩
    rw [counted, countedStarts]
    cases machine.count.exceeded? with
    | some limit => simp [Machine.Before.refl, same]
    | none =>
      obtain ⟨inside, sorted⟩ := List.pairwise_cons.mp (grows machine.count)
      have behind : ∀ later ∈ starts machine.count ++ [(action machine.count).2], machine.Before later :=
        fun later held => same.trans (inside later held)
      refine List.pairwise_cons.mpr ⟨?_, List.pairwise_cons.mpr ⟨behind, sorted⟩⟩
      exact List.forall_mem_cons.mpr ⟨.refl machine, behind⟩
  withValue value := by
    intro action starts grows machine
    cases evaluates : value.eval machine.store with
    | ok result =>
      rw [withValue_ok _ machine evaluates, valueStarts_ok _ machine evaluates]
      exact grows result machine
    | error cause =>
      rw [withValue_error _ machine evaluates, valueStarts_error _ machine evaluates]
      simp [Machine.Before.refl]
  andThen := grows_andThen
  loop body grows :=
    loop_by_rounds (fun machine => by simp [Machine.Before.refl]) (grows_andThen grows) id rounds

end Action

namespace Stmt
open LoopLang.Action
variable {machine : Machine} {limit rounds : Nat}

/-- With more rounds than the limit counts, the limited run ends, and it ends either as the unlimited one
or at the moment that exceeds the limit. -/
private theorem limited_cases (stmt : Stmt) (unlimited : machine.limit = none)
    (begun : machine.steps ≤ limit) (small : limit < Machine.maxSteps) (many : limit < rounds) :
    (∃ outcome final, stmt.exec rounds machine = (some outcome, final) ∧ final.limit = none ∧
      final.steps = machine.steps + (stmt.starts rounds machine).length ∧ final.steps ≤ limit ∧
      stmt.exec rounds (machine.limited limit) = (some outcome, final.limited limit)) ∨
    ∃ moment, (stmt.starts rounds machine)[limit - machine.steps]? = some moment ∧
      moment.limit = none ∧ moment.steps = limit ∧
      stmt.exec rounds (machine.limited limit) =
        (some (.failed (.budgetExhausted limit)), (moment.limited limit).count) := by
  have lasting := (lasts rounds).exec stmt machine
  rcases ((truncated rounds small).exec stmt machine unlimited begun).fits_or_cut with
    ⟨unlimited, counted, enough, bounded⟩ | cut
  · rcases ran : stmt.exec rounds machine with ⟨_ | outcome, final⟩
    · have started := lasting (by rw [ran])
      omega
    · rw [ran] at unlimited counted enough bounded
      exact .inl ⟨outcome, final, rfl, unlimited, counted, enough, bounded⟩
  · exact .inr cut

/-- A spent machine starts the statement and nothing else. -/
theorem exec_spent (stmt : Stmt) (limited : machine.limit = some limit)
    (small : limit < Machine.maxSteps) (spent : limit ≤ machine.steps) (rounds : Nat) :
    stmt.exec rounds machine = (some (.failed (.budgetExhausted limit)), machine.count) ∧
      stmt.starts rounds machine = [machine] := by
  cases stmt <;> exact counted_spent machine limited small spent _ _

/-- A machine with a limit is a machine without one, limited. -/
private theorem exists_limited (limited : machine.limit = some limit) :
    ∃ free : Machine, free.limit = none ∧ free.steps = machine.steps ∧ machine = free.limited limit := by
  refine ⟨{ machine with limit := none }, rfl, rfl, ?_⟩
  rw [Machine.limited, ← limited]

/-- A limited run always ends, as soon as its loops may take more rounds than the limit counts. -/
theorem limited_ends (stmt : Stmt) (limited : machine.limit = some limit)
    (small : limit < Machine.maxSteps) (many : limit < rounds) :
    ∃ outcome final, stmt.exec rounds machine = (some outcome, final) := by
  by_cases begun : machine.steps ≤ limit
  · obtain ⟨free, unlimited, steps, rfl⟩ := exists_limited limited
    rcases stmt.limited_cases unlimited begun small many with
      ⟨outcome, final, -, -, -, -, ran⟩ | ⟨moment, -, -, -, ran⟩
    · exact ⟨_, _, ran⟩
    · exact ⟨_, _, ran⟩
  · exact ⟨_, _, (stmt.exec_spent limited small (by omega) rounds).1⟩

/-- A limited machine executes a statement to its end. -/
private theorem machine_exec_of_ends {stmt : Stmt} (limited : machine.limit = some limit)
    (small : limit < Machine.maxSteps) {outcome : Outcome} {final : Machine}
    (ends : stmt.Ends machine outcome final) : machine.exec stmt = some (outcome, final) := by
  have many : limit < machine.rounds := by simp [Machine.rounds, limited]
  obtain ⟨another, other, ran⟩ := stmt.limited_ends limited small many
  obtain ⟨rfl, rfl⟩ := ends_unique ends ⟨_, ran⟩
  rw [Machine.exec, ran]

/-- A limited run starts the statements of the unlimited one, as many as the limit counts and one more. -/
theorem starts_le (stmt : Stmt) (limited : machine.limit = some limit)
    (small : limit < Machine.maxSteps) (rounds : Nat) :
    (stmt.starts rounds machine).length ≤ limit - machine.steps + 1 := by
  by_cases begun : machine.steps ≤ limit
  · obtain ⟨free, unlimited, steps, rfl⟩ := exists_limited limited
    rw [← steps]
    exact ((truncated rounds small).exec stmt free unlimited begun).length_le
  · rw [(stmt.exec_spent limited small (by omega) rounds).2]
    exact Nat.le_add_left ..

/-- The moment that a statement finds is where a limited run stops when that statement is too much. -/
private theorem cut_of_startsAt {stmt : Stmt} {moment : Machine} (unlimited : machine.limit = none)
    (begun : machine.steps ≤ limit) (small : limit < Machine.maxSteps)
    (there : stmt.StartsAt machine (limit - machine.steps) moment) :
    stmt.Ends (machine.limited limit) (.failed (.budgetExhausted limit)) (moment.limited limit).count ∧
      moment.limit = none ∧ moment.steps = limit := by
  obtain ⟨rounds, there⟩ := there
  obtain ⟨free, spent, ran⟩ :=
    ((truncated rounds small).exec stmt machine unlimited begun).cut_of_start there
  exact ⟨⟨rounds, ran⟩, free, spent⟩

/-- However many rounds a run is given, a statement in the same place finds the same machine. -/
private theorem startsAt_unique {stmt : Stmt} {moment other : Machine}
    (unlimited : machine.limit = none)
    (begun : machine.steps ≤ limit) (small : limit < Machine.maxSteps)
    (there : stmt.StartsAt machine (limit - machine.steps) moment)
    (found : stmt.StartsAt machine (limit - machine.steps) other) : other = moment := by
  obtain ⟨ends, free, spent⟩ := cut_of_startsAt unlimited begun small there
  obtain ⟨endsToo, freeToo, spentToo⟩ := cut_of_startsAt unlimited begun small found
  obtain ⟨-, same⟩ := ends_unique endsToo ends
  obtain ⟨store, printer, limit, steps⟩ := moment
  obtain ⟨store', printer', limit', steps'⟩ := other
  simp_all [Machine.limited, Machine.count]

/-- Of two limited runs, the one with the higher limit gets as far as the other one or further: both follow the
unlimited run in the same number of rounds. -/
theorem limit_raised {higher : Nat} (stmt : Stmt) (unlimited : machine.limit = none)
    (begun : machine.steps ≤ limit) (above : limit ≤ higher) (small : higher < Machine.maxSteps) :
    ∃ outcome final outcome' final', (machine.limited limit).exec stmt = some (outcome, final) ∧
      (machine.limited higher).exec stmt = some (outcome', final') ∧
      (outcome ≠ .failed (.budgetExhausted limit) →
        outcome' = outcome ∧ final' = final.limited higher) ∧
      final.Before final' := by
  have lower : limit < Machine.maxSteps := by omega
  have sorted := (grows (higher + 1)).exec stmt machine
  have manyLower : limit < higher + 1 := by omega
  have many : higher < higher + 1 := by omega
  rcases stmt.limited_cases unlimited begun lower manyLower with
    ⟨outcome, final, ran, -, counted, enough, bounded⟩ | ⟨moment, there, -, -, bounded⟩
  · rcases stmt.limited_cases unlimited (by omega) small many with
      ⟨outcome', final', ran', -, -, -, raised⟩ | ⟨moment', there', -⟩
    · cases ran.symm.trans ran'
      exact ⟨_, _, _, _, machine_exec_of_ends rfl lower ⟨_, bounded⟩,
        machine_exec_of_ends rfl small ⟨_, raised⟩, fun _ => ⟨rfl, rfl⟩, ⟨[], rfl⟩⟩
    · have inside := (List.getElem?_eq_some_iff.mp there').1
      omega
  · rcases stmt.limited_cases unlimited (by omega) small many with
      ⟨outcome', final', ran', -, -, -, raised⟩ | ⟨moment', there', -, -, raised⟩
    · refine ⟨_, _, _, _, machine_exec_of_ends rfl lower ⟨_, bounded⟩,
        machine_exec_of_ends rfl small ⟨_, raised⟩, fun budget => absurd rfl budget, ?_⟩
      rw [ran'] at sorted
      have held := List.mem_cons_of_mem machine (List.mem_of_getElem? there)
      exact (List.pairwise_append.mp sorted).2.2 moment held final' (List.mem_singleton_self final')
    · refine ⟨_, _, _, _, machine_exec_of_ends rfl lower ⟨_, bounded⟩,
        machine_exec_of_ends rfl small ⟨_, raised⟩, fun budget => absurd rfl budget, ?_⟩
      have ordered : moment.Before moment' := before_of_le sorted there there' (by omega)
      exact ordered

/-- A limit on the steps only truncates a run. A run that needs no more steps is left as it is. Any other
one, whether it ends or not, fails at the first statement that is too much, with what that statement
finds in the run without the limit. Hence a higher limit keeps every other result, and what is printed
is kept and perhaps extended. -/
theorem limit_only_truncates (stmt : Stmt) (machine : Machine) (unlimited : machine.limit = none)
    (limit : Nat) (begun : machine.steps ≤ limit) (small : limit < Machine.maxSteps) :
    (∀ outcome final, stmt.Ends machine outcome final → final.steps ≤ limit →
      (machine.limited limit).exec stmt = some (outcome, final.limited limit)) ∧
    ((∀ outcome final, stmt.Ends machine outcome final → limit < final.steps) →
      ∃ moment, stmt.StartsAt machine (limit - machine.steps) moment ∧
        (∀ other, stmt.StartsAt machine (limit - machine.steps) other → other = moment) ∧
        (machine.limited limit).exec stmt = some (.failed (.budgetExhausted limit),
          { moment with limit := some limit, steps := limit + 1 })) ∧
    ∀ higher, limit ≤ higher → higher < Machine.maxSteps →
      ∃ outcome final outcome' final', (machine.limited limit).exec stmt = some (outcome, final) ∧
        (machine.limited higher).exec stmt = some (outcome', final') ∧
        (outcome ≠ .failed (.budgetExhausted limit) →
          outcome' = outcome ∧ final' = final.limited higher) ∧
        ∃ lines, final'.printer = final.printer.printLines lines := by
  refine ⟨?_, ?_, ?_⟩
  · rintro outcome final ⟨rounds, ran⟩ enough
    replace ran := exec_extends rounds (max rounds (limit + 1)) (Nat.le_max_left ..) stmt _ _ _ ran
    have counted := (counts (max rounds (limit + 1))).exec stmt machine (by omega)
    have many : limit < max rounds (limit + 1) := by omega
    rcases stmt.limited_cases unlimited begun small many with
      ⟨outcome', final', ran', -, -, -, bounded⟩ | ⟨moment, there, -⟩
    · cases ran.symm.trans ran'
      exact machine_exec_of_ends rfl small ⟨_, bounded⟩
    · have inside := (List.getElem?_eq_some_iff.mp there).1
      rw [ran] at counted
      simp only at counted
      omega
  · intro long
    rcases stmt.limited_cases unlimited begun small (Nat.lt_succ_self limit) with
      ⟨outcome, final, ran, -, -, enough, -⟩ | ⟨moment, there, -, spent, bounded⟩
    · have := long outcome final ⟨_, ran⟩
      omega
    · refine ⟨moment, ⟨_, there⟩, fun other found => ?_, ?_⟩
      · exact startsAt_unique unlimited begun small ⟨_, there⟩ found
      · have exceeded : (moment.limited limit).count =
            { moment with limit := some limit, steps := limit + 1 } := by
          have : min (limit + 1) Machine.maxSteps = limit + 1 := by omega
          simp [Machine.limited, Machine.count, spent, this]
        rw [← exceeded]
        exact machine_exec_of_ends rfl small ⟨_, bounded⟩
  · intro higher above smallToo
    exact stmt.limit_raised unlimited begun above smallToo

/-- Two lines after five steps: a limit of eight is enough, and one of seven leaves the second line out. -/
theorem second_line_truncated :
    (Machine.limited ⟨Store.empty, .buffer "", none, 5⟩ 8).exec
        (block [print (.constant ⟨0⟩), print (.constant ⟨0⟩)]) =
      some (.completed, ⟨Store.empty, .buffer "0.0\n0.0\n", some 8, 8⟩) ∧
    (Machine.limited ⟨Store.empty, .buffer "", none, 5⟩ 7).exec
        (block [print (.constant ⟨0⟩), print (.constant ⟨0⟩)]) =
      some (.failed (.budgetExhausted 7), ⟨Store.empty, .buffer "0.0\n", some 7, 8⟩) := by
  let start : Machine := ⟨Store.empty, .buffer "", none, 5⟩
  let lines : Stmt := block [print (.constant ⟨0⟩), print (.constant ⟨0⟩)]
  have zero (store : Store) : (Expr.constant ⟨0⟩).eval store = .ok 0.0 := rfl
  have printed : Printer.valueText 0.0 = "0.0" := by decide +kernel
  have ran : lines.exec 1 start = (some .completed, ⟨Store.empty, .buffer "0.0\n0.0\n", none, 8⟩) := by
    simp [lines, start, exec, execBody, andThen, ended, counted_unlimited, withValue_ok, zero, printed,
      Machine.count, Machine.println, Printer.println, Machine.maxSteps, UInt64.size]
  have started : lines.starts 1 start =
      [start, ⟨Store.empty, .buffer "", none, 6⟩, ⟨Store.empty, .buffer "0.0\n", none, 7⟩] := by
    simp [lines, start, exec, counted_unlimited, withValue_ok, zero, printed, starts, bodyStarts,
      thenStarts, countedStarts_unlimited, valueStarts_ok, Machine.count, Machine.println,
      Printer.println, Machine.maxSteps, UInt64.size]
  have third : lines.StartsAt start 2 ⟨Store.empty, .buffer "0.0\n", none, 7⟩ := ⟨1, by rw [started]; rfl⟩
  have long (outcome : Outcome) (final : Machine) (ends : lines.Ends start outcome final) :
      7 < final.steps := by
    obtain ⟨-, rfl⟩ := ends_unique ⟨1, ran⟩ ends
    decide
  obtain ⟨fits, -⟩ := limit_only_truncates lines start rfl 8 (by decide) (by decide)
  obtain ⟨-, cuts, -⟩ := limit_only_truncates lines start rfl 7 (by decide) (by decide)
  obtain ⟨moment, -, only, cut⟩ := cuts long
  obtain rfl := only _ third
  exact ⟨fits _ _ ⟨1, ran⟩ (by decide), cut⟩

/-- A machine with a limit that the counter can exceed always stops, whatever it executes and however it
was used before. It starts no more statements than the limit leaves it and one more, and if the limit
leaves none, that one fails and changes nothing but the counter. -/
theorem limited_run_stops (stmt : Stmt) (machine : Machine) (limit : Nat)
    (limited : machine.limit = some limit) (small : limit < Machine.maxSteps) :
    (∃ outcome final, machine.exec stmt = some (outcome, final) ∧
      machine.run stmt = some (outcome.atEnd, final) ∧
      final.steps =
        min (machine.steps + (stmt.starts machine.rounds machine).length) Machine.maxSteps) ∧
    (∀ rounds, (stmt.starts rounds machine).length ≤ limit - machine.steps + 1) ∧
    (limit ≤ machine.steps →
      machine.exec stmt = some (.failed (.budgetExhausted limit), machine.count) ∧
      machine.run stmt = some (.error (.budgetExhausted limit), machine.count) ∧
      machine.count.store = machine.store ∧ machine.count.printer = machine.printer ∧
      ∀ rounds, stmt.starts rounds machine = [machine]) := by
  have many : limit < machine.rounds := by simp [Machine.rounds, limited]
  have runs {outcome : Outcome} {final : Machine} (ran : machine.exec stmt = some (outcome, final)) :
      machine.run stmt = some (outcome.atEnd, final) := by
    rw [Machine.run, ran, Option.map_some]
  refine ⟨?_, stmt.starts_le limited small, ?_⟩
  · obtain ⟨outcome, final, ran⟩ := stmt.limited_ends limited small many
    have ended := machine_exec_of_ends limited small ⟨_, ran⟩
    refine ⟨outcome, final, ended, runs ended, ?_⟩
    by_cases representable : machine.steps ≤ Machine.maxSteps
    · have counted := (counts machine.rounds).exec stmt machine representable
      rwa [ran] at counted
    · obtain ⟨ranOut, started⟩ := stmt.exec_spent limited small (by omega) machine.rounds
      cases ranOut.symm.trans ran
      rw [started]
      rfl
  · intro spent
    have ended := machine_exec_of_ends limited small ⟨0, (stmt.exec_spent limited small spent 0).1⟩
    exact ⟨ended, runs ended, rfl, rfl, fun rounds => (stmt.exec_spent limited small spent rounds).2⟩

/-- A loop over an empty block stops, and a machine that has spent its budget does not even begin it. -/
theorem empty_loop_stops :
    (∃ ending final, Machine.run ⟨Store.empty, .buffer "", some 3, 0⟩ (loop (block [])) =
      some (ending, final) ∧ final.steps ≤ 4) ∧
    Machine.run ⟨Store.empty, .buffer "", some 3, 9⟩ (loop (block [])) =
      some (.error (.budgetExhausted 3), ⟨Store.empty, .buffer "", some 3, 10⟩) := by
  obtain ⟨⟨outcome, final, -, ran, counted⟩, few, -⟩ :=
    limited_run_stops (loop (block [])) ⟨Store.empty, .buffer "", some 3, 0⟩ 3 rfl (by decide)
  obtain ⟨-, -, spent⟩ :=
    limited_run_stops (loop (block [])) ⟨Store.empty, .buffer "", some 3, 9⟩ 3 rfl (by decide)
  have within : final.steps ≤ 4 := by
    have started := few (Machine.rounds ⟨Store.empty, .buffer "", some 3, 0⟩)
    simp only at counted started
    omega
  exact ⟨⟨outcome.atEnd, final, ran, within⟩, (spent (by decide)).2.1⟩

end Stmt
end LoopLang
