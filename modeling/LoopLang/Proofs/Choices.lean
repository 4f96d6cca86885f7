import LoopLang.Proofs.Prune

/-! Runs by free choice. Where nothing is known about conditions, either branch may be taken whenever
control gets to a conditional, another one in each round of a loop, and expressions always have a value.
The ways that the analysis finds for a statement are exactly those in which such runs of it end: it
overlooks none, and it reports none without a row of choices that leads there. -/
namespace LoopLang.Stmt

mutual

/-- If the conditionals are decided like this, in the order in which control gets to them, then the
statement comes to this outcome. -/
inductive MayEnd : Stmt → List Bool → Outcome → Prop where
  | block (sequence : BodyMayEnd body choices outcome) : MayEnd (block body) choices outcome
  | assign : MayEnd (assign name value) [] .completed
  | branch_true (chosen : MayEnd ifTrue choices outcome) :
      MayEnd (branch comparison lhs rhs ifTrue ifFalse) (true :: choices) outcome
  | branch_false (chosen : MayEnd ifFalse choices outcome) :
      MayEnd (branch comparison lhs rhs ifTrue ifFalse) (false :: choices) outcome
  | loop (before : MayRepeat body rounds choices) (exits : MayEnd body last .exited) :
      MayEnd (loop body) (choices ++ last) .completed
  | exit : MayEnd exit [] .exited
  | print : MayEnd (print value) [] .completed

/-- The same for statements in sequence: an exit keeps the later ones from being started. -/
inductive BodyMayEnd : List Stmt → List Bool → Outcome → Prop where
  | done : BodyMayEnd [] [] .completed
  | more (completes : MayEnd stmt choices .completed) (goesOn : BodyMayEnd rest later outcome) :
      BodyMayEnd (stmt :: rest) (choices ++ later) outcome
  | stops (exits : MayEnd stmt choices .exited) : BodyMayEnd (stmt :: rest) choices .exited

/-- With these choices so many rounds of a body complete one after another. -/
inductive MayRepeat : Stmt → Nat → List Bool → Prop where
  | none : MayRepeat body 0 []
  | more (completes : MayEnd body choices .completed) (goesOn : MayRepeat body rounds later) :
      MayRepeat body (rounds + 1) (choices ++ later)

end

end LoopLang.Stmt

namespace LoopLang

/-! ### Ways and their outcomes -/

namespace Ways
variable {first second : Ways} {outcome : Outcome}

private theorem allow_through (fine : ∀ cause, outcome ≠ .failed cause) :
    through.Allow outcome ↔ outcome = .completed := by
  cases outcome with
  | failed cause => exact absurd rfl (fine cause)
  | _ => simp [Allow, through]

private theorem allow_out (fine : ∀ cause, outcome ≠ .failed cause) :
    out.Allow outcome ↔ outcome = .exited := by
  cases outcome with
  | failed cause => exact absurd rfl (fine cause)
  | _ => simp [Allow, out]

/-- Either of two statements may run. -/
private theorem allow_either :
    (first.either second).Allow outcome ↔ first.Allow outcome ∨ second.Allow outcome := by
  cases outcome <;> simp [Allow, either]

/-- A sequence goes on behind a first statement that completes, or the first one leaves it. -/
private theorem allow_andThen (fine : ∀ cause, outcome ≠ .failed cause) :
    (first.andThen second).Allow outcome ↔
      first.Allow .completed ∧ second.Allow outcome ∨ first.Allow .exited ∧ outcome = .exited := by
  cases outcome with
  | completed => simp [Allow, andThen]
  | exited => simp [Allow, andThen, or_comm]
  | failed cause => exact absurd rfl (fine cause)

/-- A loop comes to its end by an exit from its body and in no other way. -/
private theorem allow_repeated (fine : ∀ cause, outcome ≠ .failed cause) :
    first.repeated.Allow outcome ↔ first.Allow .exited ∧ outcome = .completed := by
  cases outcome with
  | failed cause => exact absurd rfl (fine cause)
  | _ => simp [Allow, repeated]

end Ways

namespace Stmt

mutual

/-- The analysis allows for an outcome exactly if some choices lead there. A loop can exit in its first round as
well as in any later one. -/
theorem allow_iff_mayEnd (stmt : Stmt) {outcome : Outcome} (fine : ∀ cause, outcome ≠ .failed cause) :
    stmt.ways.Allow outcome ↔ ∃ choices, stmt.MayEnd choices outcome := by
  cases stmt with
  | block body =>
    rw [ways_block, bodyAllow_iff_mayEnd body fine]
    constructor
    · rintro ⟨choices, sequence⟩
      exact ⟨choices, .block sequence⟩
    · rintro ⟨choices, ⟨sequence⟩⟩
      exact ⟨choices, sequence⟩
  | assign name value =>
    rw [ways_assign, Ways.allow_through fine]
    constructor
    · rintro rfl
      exact ⟨[], .assign⟩
    · rintro ⟨choices, ⟨⟩⟩
      rfl
  | branch comparison lhs rhs ifTrue ifFalse =>
    rw [ways_branch, Ways.allow_either, allow_iff_mayEnd ifTrue fine, allow_iff_mayEnd ifFalse fine]
    constructor
    · rintro (⟨choices, chosen⟩ | ⟨choices, chosen⟩)
      · exact ⟨true :: choices, .branch_true chosen⟩
      · exact ⟨false :: choices, .branch_false chosen⟩
    · rintro ⟨choices, ends⟩
      cases ends with
      | branch_true chosen => exact .inl ⟨_, chosen⟩
      | branch_false chosen => exact .inr ⟨_, chosen⟩
  | loop body =>
    have exiting : body.ways.Allow .exited ↔ ∃ choices, body.MayEnd choices .exited :=
      allow_iff_mayEnd body (by simp)
    rw [ways_loop, Ways.allow_repeated fine, exiting]
    constructor
    · rintro ⟨⟨choices, exits⟩, rfl⟩
      exact ⟨[] ++ choices, .loop .none exits⟩
    · rintro ⟨choices, ends⟩
      cases ends with
      | loop before exits => exact ⟨⟨_, exits⟩, rfl⟩
  | exit =>
    rw [ways_exit, Ways.allow_out fine]
    constructor
    · rintro rfl
      exact ⟨[], .exit⟩
    · rintro ⟨choices, ⟨⟩⟩
      rfl
  | print value =>
    rw [ways_print, Ways.allow_through fine]
    constructor
    · rintro rfl
      exact ⟨[], .print⟩
    · rintro ⟨choices, ⟨⟩⟩
      rfl

theorem bodyAllow_iff_mayEnd (body : List Stmt) {outcome : Outcome}
    (fine : ∀ cause, outcome ≠ .failed cause) :
    (bodyWays body).Allow outcome ↔ ∃ choices, BodyMayEnd body choices outcome := by
  cases body with
  | nil =>
    rw [bodyWays_nil, Ways.allow_through fine]
    constructor
    · rintro rfl
      exact ⟨[], .done⟩
    · rintro ⟨choices, ⟨⟩⟩
      rfl
  | cons stmt rest =>
    have completing : stmt.ways.Allow .completed ↔ ∃ choices, stmt.MayEnd choices .completed :=
      allow_iff_mayEnd stmt (by simp)
    have exiting : stmt.ways.Allow .exited ↔ ∃ choices, stmt.MayEnd choices .exited :=
      allow_iff_mayEnd stmt (by simp)
    rw [bodyWays_cons, Ways.allow_andThen fine, completing, exiting, bodyAllow_iff_mayEnd rest fine]
    constructor
    · rintro (⟨⟨choices, completes⟩, later, goesOn⟩ | ⟨⟨choices, exits⟩, rfl⟩)
      · exact ⟨choices ++ later, .more completes goesOn⟩
      · exact ⟨choices, .stops exits⟩
    · rintro ⟨choices, ends⟩
      cases ends with
      | more completes goesOn => exact .inl ⟨⟨_, completes⟩, _, goesOn⟩
      | stops exits => exact .inr ⟨⟨_, exits⟩, rfl⟩

end

/-- The analysis is exact for unknown conditions. It finds that a statement can complete precisely if
some choices of branches complete it, and that it can leave the loop around it precisely if some
choices end it by an exit. -/
theorem ways_of_free_choice (stmt : Stmt) :
    (stmt.ways.completes = true ↔ ∃ choices, stmt.MayEnd choices .completed) ∧
      (stmt.ways.exits = true ↔ ∃ choices, stmt.MayEnd choices .exited) := by
  have completing : stmt.ways.Allow .completed ↔ ∃ choices, stmt.MayEnd choices .completed :=
    allow_iff_mayEnd stmt (by simp)
  have exiting : stmt.ways.Allow .exited ↔ ∃ choices, stmt.MayEnd choices .exited :=
    allow_iff_mayEnd stmt (by simp)
  exact ⟨completing, exiting⟩

/-- A run that does not fail ends as some choices would have it, whatever machine it starts from. -/
theorem mayEnd_of_exec {rounds : Nat} {stmt : Stmt} {machine final : Machine} {outcome : Outcome}
    (ran : stmt.exec rounds machine = (some outcome, final)) (fine : ∀ cause, outcome ≠ .failed cause) :
    ∃ choices, stmt.MayEnd choices outcome :=
  (allow_iff_mayEnd stmt fine).mp (exec_within rounds stmt _ _ _ ran)

end Stmt
end LoopLang
