import LoopLang.Java.Program

/-! Java's rules for reachable code, applied to the statements that are written. A compiler of Java
follows control through the text, refuses a statement that control cannot reach, and refuses a
`break` outside every loop. The rules are those of the Java language for the statements in use and
know nothing of the analysis that pruning relies on; both agree on everything that is written. -/
namespace LoopLang.Java

/-- A statement in the place where it stands in a text. -/
structure Place where
  stmt : Stmt
  /-- Whether control can reach it. -/
  reachable : Bool
  /-- Whether a loop of the text is around it. -/
  looped : Bool

namespace Stmt

mutual

/-- Whether a statement can complete normally, if it can be reached or cannot. A loop on the literal
`true` ends by its own reachable `break` and by nothing else. -/
def completes (reachable : Bool) : Stmt → Bool
  | block body => bodyCompletes reachable body
  | assign _ _ => reachable
  | ifThen _ _ _ _ => reachable
  | ifElse _ _ _ ifTrue ifFalse => bodyCompletes reachable ifTrue || ifFalse.completes reachable
  | whileTrue body => body.breaks reachable
  | leave => false
  | println _ => reachable

/-- Control reaches a statement of a block when the one before it can complete normally. -/
def bodyCompletes (reachable : Bool) : List Stmt → Bool
  | [] => reachable
  | stmt :: rest => bodyCompletes (stmt.completes reachable) rest

/-- Whether a reachable `break` leaves the nearest loop around the statement. -/
def breaks (reachable : Bool) : Stmt → Bool
  | block body => bodyBreaks reachable body
  | assign _ _ => false
  | ifThen _ _ _ ifTrue => ifTrue.breaks reachable
  | ifElse _ _ _ ifTrue ifFalse => bodyBreaks reachable ifTrue || ifFalse.breaks reachable
  | whileTrue _ => false
  | leave => reachable
  | println _ => false

def bodyBreaks (reachable : Bool) : List Stmt → Bool
  | [] => false
  | stmt :: rest => stmt.breaks reachable || bodyBreaks (stmt.completes reachable) rest

end

mutual

/-- Every statement of a text with its place. The first branch before an `else` is a block. -/
def places (reachable looped : Bool) : Stmt → List Place
  | block body => ⟨block body, reachable, looped⟩ :: bodyPlaces reachable looped body
  | ifThen comparison lhs rhs ifTrue =>
    ⟨ifThen comparison lhs rhs ifTrue, reachable, looped⟩ :: ifTrue.places reachable looped
  | ifElse comparison lhs rhs ifTrue ifFalse =>
    ⟨ifElse comparison lhs rhs ifTrue ifFalse, reachable, looped⟩ ::
      ⟨block ifTrue, reachable, looped⟩ :: bodyPlaces reachable looped ifTrue ++
      ifFalse.places reachable looped
  | whileTrue body => ⟨whileTrue body, reachable, looped⟩ :: body.places reachable true
  | simple => [⟨simple, reachable, looped⟩]

def bodyPlaces (reachable looped : Bool) : List Stmt → List Place
  | [] => []
  | stmt :: rest =>
    stmt.places reachable looped ++ bodyPlaces (stmt.completes reachable) looped rest

end

variable {place : Place} {reachable looped : Bool}

/-- Braces change nothing about how control ends. -/
@[simp] theorem bodyCompletes_braced (stmt : Stmt) :
    bodyCompletes reachable stmt.braced = stmt.completes reachable := by
  cases stmt <;> rfl

@[simp] theorem bodyBreaks_braced (stmt : Stmt) :
    bodyBreaks reachable stmt.braced = stmt.breaks reachable := by
  cases stmt <;> simp [braced, bodyBreaks, breaks]

/-- Braces around a statement leave every statement inside it where it was. -/
theorem bodyPlaces_braced {stmt : Stmt} (held : place ∈ bodyPlaces reachable looped stmt.braced) :
    place ∈ stmt.places reachable looped := by
  cases stmt with
  | block body => exact List.mem_cons_of_mem _ held
  | _ => simpa [braced, bodyPlaces] using held

mutual

/-- Inside a loop nothing stands outside of it. -/
theorem places_looped (reachable : Bool) (stmt : Stmt)
    (held : place ∈ stmt.places reachable true) : place.looped = true := by
  cases stmt with
  | block body =>
    rcases List.mem_cons.mp held with rfl | inside
    · rfl
    · exact bodyPlaces_looped reachable body inside
  | ifThen comparison lhs rhs ifTrue =>
    rcases List.mem_cons.mp held with rfl | inside
    · rfl
    · exact places_looped reachable ifTrue inside
  | ifElse comparison lhs rhs ifTrue ifFalse =>
    simp only [places, List.cons_append, List.mem_cons, List.mem_append] at held
    rcases held with rfl | rfl | inside | inside
    · rfl
    · rfl
    · exact bodyPlaces_looped reachable ifTrue inside
    · exact places_looped reachable ifFalse inside
  | whileTrue body =>
    rcases List.mem_cons.mp held with rfl | inside
    · rfl
    · exact places_looped reachable body inside
  | _ =>
    cases List.mem_singleton.mp held
    rfl

theorem bodyPlaces_looped (reachable : Bool) (body : List Stmt)
    (held : place ∈ bodyPlaces reachable true body) : place.looped = true := by
  cases body with
  | nil => exact absurd held List.not_mem_nil
  | cons stmt rest =>
    rcases List.mem_append.mp held with inside | behind
    · exact places_looped reachable stmt inside
    · exact bodyPlaces_looped _ rest behind

end

end Stmt
end LoopLang.Java

namespace LoopLang.Stmt
variable {place : Java.Place}

mutual

/-- By Java's rules a written statement ends in the ways that the analysis of the source finds. -/
theorem toJava_completes_breaks (stmt : Stmt) :
    stmt.toJava.completes true = stmt.ways.completes ∧
      stmt.toJava.breaks true = stmt.ways.exits := by
  cases stmt with
  | block body =>
    rw [toJava_block, Java.Stmt.completes, Java.Stmt.breaks]
    exact bodyToJava_completes_breaks body
  | branch comparison lhs rhs ifTrue ifFalse =>
    obtain ⟨trueCompletes, trueBreaks⟩ := toJava_completes_breaks ifTrue
    obtain ⟨falseCompletes, falseBreaks⟩ := toJava_completes_breaks ifFalse
    by_cases empty : ifFalse = block []
    · subst empty
      simp [Java.Stmt.completes, Java.Stmt.breaks, Ways.either, Ways.through, trueBreaks]
    · rw [toJava_branch _ _ _ _ _ empty]
      simp [Java.Stmt.completes, Java.Stmt.breaks, Ways.either, *]
  | loop body =>
    obtain ⟨-, breaks⟩ := toJava_completes_breaks body
    simp [Java.Stmt.completes, Java.Stmt.breaks, Ways.repeated, breaks]
  | _ => simp [Java.Stmt.completes, Java.Stmt.breaks, Ways.through, Ways.out]

theorem bodyToJava_completes_breaks (body : List Stmt) :
    Java.Stmt.bodyCompletes true (bodyToJava body) = (bodyWays body).completes ∧
      Java.Stmt.bodyBreaks true (bodyToJava body) = (bodyWays body).exits := by
  cases body with
  | nil => simp [Java.Stmt.bodyCompletes, Java.Stmt.bodyBreaks, Ways.through]
  | cons stmt rest =>
    obtain ⟨completes, breaks⟩ := toJava_completes_breaks stmt
    obtain ⟨restCompletes, restBreaks⟩ := bodyToJava_completes_breaks rest
    rw [bodyToJava_cons, bodyWays_cons, Java.Stmt.bodyCompletes, Java.Stmt.bodyBreaks,
      completes, breaks]
    cases passes : stmt.ways.completes with
    | true => simp [Ways.andThen, *]
    | false => simp [Ways.andThen, Java.Stmt.bodyCompletes, Java.Stmt.bodyBreaks, passes]

end

mutual

/-- Control reaches every statement that is written. -/
theorem toJava_reachable (looped : Bool) (stmt : Stmt)
    (held : place ∈ stmt.toJava.places true looped) : place.reachable = true := by
  cases stmt with
  | block body =>
    rw [toJava_block] at held
    rcases List.mem_cons.mp held with rfl | inside
    · rfl
    · exact bodyToJava_reachable looped body inside
  | branch comparison lhs rhs ifTrue ifFalse =>
    by_cases empty : ifFalse = block []
    · subst empty
      rw [toJava_branch_empty] at held
      rcases List.mem_cons.mp held with rfl | inside
      · rfl
      · exact toJava_reachable looped ifTrue inside
    · rw [toJava_branch _ _ _ _ _ empty] at held
      simp only [Java.Stmt.places, List.cons_append, List.mem_cons, List.mem_append] at held
      rcases held with rfl | rfl | inside | inside
      · rfl
      · rfl
      · exact toJava_reachable looped ifTrue (Java.Stmt.bodyPlaces_braced inside)
      · exact toJava_reachable looped ifFalse inside
  | loop body =>
    rw [toJava_loop] at held
    rcases List.mem_cons.mp held with rfl | inside
    · rfl
    · exact toJava_reachable true body inside
  | _ =>
    simp only [toJava_assign, toJava_exit, toJava_print] at held
    cases List.mem_singleton.mp held
    rfl

/-- The rest of a sequence is written only where control gets past its first statement. -/
theorem bodyToJava_reachable (looped : Bool) (body : List Stmt)
    (held : place ∈ Java.Stmt.bodyPlaces true looped (bodyToJava body)) :
    place.reachable = true := by
  cases body with
  | nil => simp [Java.Stmt.bodyPlaces] at held
  | cons stmt rest =>
    rw [bodyToJava_cons, Java.Stmt.bodyPlaces, (toJava_completes_breaks stmt).1] at held
    rcases List.mem_append.mp held with inside | behind
    · exact toJava_reachable looped stmt inside
    · cases passes : stmt.ways.completes with
      | true =>
        simp only [passes, if_true] at behind
        exact bodyToJava_reachable looped rest behind
      | false => simp [passes, Java.Stmt.bodyPlaces] at behind

end

mutual

/-- Where no exit is stray, every `break` that is written stands in a loop. -/
theorem toJava_break_looped (reachable : Bool) (stmt : Stmt) (proper : stmt.strayRoles? = none)
    (held : place ∈ stmt.toJava.places reachable false) (leaves : place.stmt = .leave) :
    place.looped = true := by
  cases stmt with
  | block body =>
    rw [toJava_block] at held
    rcases List.mem_cons.mp held with rfl | inside
    · cases leaves
    · exact bodyToJava_break_looped reachable 0 body proper inside leaves
  | branch comparison lhs rhs ifTrue ifFalse =>
    obtain ⟨properTrue, properFalse⟩ := strayRoles?_branch_eq_none.mp proper
    by_cases empty : ifFalse = block []
    · subst empty
      rw [toJava_branch_empty] at held
      rcases List.mem_cons.mp held with rfl | inside
      · cases leaves
      · exact toJava_break_looped reachable ifTrue properTrue inside leaves
    · rw [toJava_branch _ _ _ _ _ empty] at held
      simp only [Java.Stmt.places, List.cons_append, List.mem_cons, List.mem_append] at held
      rcases held with rfl | rfl | inside | inside
      · cases leaves
      · cases leaves
      · exact toJava_break_looped reachable ifTrue properTrue (Java.Stmt.bodyPlaces_braced inside) leaves
      · exact toJava_break_looped reachable ifFalse properFalse inside leaves
  | loop body =>
    rw [toJava_loop] at held
    rcases List.mem_cons.mp held with rfl | inside
    · cases leaves
    · exact Java.Stmt.places_looped _ _ inside
  | exit => simp [strayRoles?] at proper
  | _ =>
    simp only [toJava_assign, toJava_print] at held
    cases List.mem_singleton.mp held
    cases leaves

theorem bodyToJava_break_looped (reachable : Bool) (position : Nat) (body : List Stmt)
    (proper : bodyStrayRoles? position body = none)
    (held : place ∈ Java.Stmt.bodyPlaces reachable false (bodyToJava body))
    (leaves : place.stmt = .leave) : place.looped = true := by
  cases body with
  | nil => simp [Java.Stmt.bodyPlaces] at held
  | cons stmt rest =>
    obtain ⟨properStmt, properRest⟩ := bodyStrayRoles?_cons_eq_none.mp proper
    rw [bodyToJava_cons, Java.Stmt.bodyPlaces] at held
    rcases List.mem_append.mp held with inside | behind
    · exact toJava_break_looped reachable stmt properStmt inside leaves
    · split at behind
      · exact bodyToJava_break_looped _ _ rest properRest behind leaves
      · simp [Java.Stmt.bodyPlaces] at behind

end

/-- A program that compiles has no stray exit. -/
theorem strayRoles?_of_compile {layout : Java.Layout} {program : Stmt} {text : String}
    (compiled : program.compile layout = .ok text) : program.strayRoles? = none := by
  cases roles : program.strayRoles? with
  | none => rfl
  | some stray => simp [compile, strayExit?, roles] at compiled

/-- Java accepts what is written: control reaches every statement, Java finds the same statements able
to complete as the analysis does, and a program that compiles has each `break` inside a loop. -/
theorem written_follows_java_rules :
    (∀ (stmt : Stmt) (looped : Bool),
      (∀ place ∈ stmt.toJava.places true looped, place.reachable = true) ∧
      stmt.toJava.completes true = stmt.ways.completes) ∧
    ∀ (layout : Java.Layout) (program : Stmt) (text : String), program.compile layout = .ok text →
      ∀ place ∈ Java.Stmt.bodyPlaces true false (program.toJavaProgram layout.className).body,
        place.reachable = true ∧ (place.stmt = .leave → place.looped = true) := by
  constructor
  · intro stmt looped
    constructor
    · intro place held
      exact toJava_reachable looped stmt held
    · exact (toJava_completes_breaks stmt).1
  · intro layout program text compiled place held
    have proper := strayRoles?_of_compile compiled
    rw [toJavaProgram_body] at held
    have alone := Java.Stmt.bodyPlaces_braced held
    exact ⟨toJava_reachable false program alone, toJava_break_looped true program proper alone⟩

theorem exited_loop_follows_java_rules :
    ∃ text, (block [loop (block [exit, exit]), print (.var "x")]).compile {} = .ok text ∧
    ∀ place ∈ Java.Stmt.bodyPlaces true false
        ((block [loop (block [exit, exit]), print (.var "x")]).toJavaProgram "WordyProgram").body,
      place.reachable = true ∧ (place.stmt = .leave → place.looped = true) := by
  refine ⟨_, rfl, ?_⟩
  exact written_follows_java_rules.2 {} _ _ rfl

end LoopLang.Stmt
