import LoopLang.Java.Program

/-! The variables of a program, read off the shape of its tree. Collecting names on a walk finds
exactly those that some statement assigns or some expression reads, and neither pruning nor the Java
statements add any. -/
namespace LoopLang
variable {name : String}

/-- The expression reads the variable somewhere. -/
def Expr.Mentions (name : String) : Expr → Prop
  | .constant _ => False
  | .var other => other = name
  | .binary _ lhs rhs => lhs.Mentions name ∨ rhs.Mentions name

namespace Stmt

mutual

/-- The statement assigns or reads the variable somewhere. -/
def Mentions (name : String) : Stmt → Prop
  | block body => BodyMentions name body
  | assign target value => target = name ∨ value.Mentions name
  | branch _ lhs rhs ifTrue ifFalse =>
    lhs.Mentions name ∨ rhs.Mentions name ∨ ifTrue.Mentions name ∨ ifFalse.Mentions name
  | loop body => body.Mentions name
  | exit => False
  | print value => value.Mentions name

def BodyMentions (name : String) : List Stmt → Prop
  | [] => False
  | stmt :: rest => stmt.Mentions name ∨ BodyMentions name rest

end

theorem bodyMentions_iff (body : List Stmt) :
    BodyMentions name body ↔ ∃ stmt ∈ body, stmt.Mentions name := by
  induction body with
  | nil => simp [BodyMentions]
  | cons stmt rest ih => simp [BodyMentions, ih]

mutual

/-- The variable is the target of some assignment in the statement. -/
def Assigns (name : String) : Stmt → Prop
  | block body => BodyAssigns name body
  | assign target _ => target = name
  | branch _ _ _ ifTrue ifFalse => ifTrue.Assigns name ∨ ifFalse.Assigns name
  | loop body => body.Assigns name
  | exit => False
  | print _ => False

def BodyAssigns (name : String) : List Stmt → Prop
  | [] => False
  | stmt :: rest => stmt.Assigns name ∨ BodyAssigns name rest

end

mutual

/-- Some expression in the statement reads the variable. -/
def Reads (name : String) : Stmt → Prop
  | block body => BodyReads name body
  | assign _ value => value.Mentions name
  | branch _ lhs rhs ifTrue ifFalse =>
    lhs.Mentions name ∨ rhs.Mentions name ∨ ifTrue.Reads name ∨ ifFalse.Reads name
  | loop body => body.Reads name
  | exit => False
  | print value => value.Mentions name

def BodyReads (name : String) : List Stmt → Prop
  | [] => False
  | stmt :: rest => stmt.Reads name ∨ BodyReads name rest

end

mutual

/-- A variable is mentioned where it is assigned and where it is read. -/
theorem mentions_iff (stmt : Stmt) : stmt.Mentions name ↔ stmt.Assigns name ∨ stmt.Reads name := by
  cases stmt with
  | block body => exact bodyMentions_iff_parts body
  | assign target value => exact Iff.rfl
  | branch comparison lhs rhs ifTrue ifFalse =>
    have inTrue := mentions_iff ifTrue
    have inFalse := mentions_iff ifFalse
    simp only [Mentions, Assigns, Reads, inTrue, inFalse]
    grind
  | loop body => exact mentions_iff body
  | exit => exact (or_self_iff).symm
  | print value => simp [Mentions, Assigns, Reads]

theorem bodyMentions_iff_parts (body : List Stmt) :
    BodyMentions name body ↔ BodyAssigns name body ∨ BodyReads name body := by
  cases body with
  | nil => exact (or_self_iff).symm
  | cons stmt rest =>
    have first := mentions_iff stmt
    have later := bodyMentions_iff_parts rest
    simp only [BodyMentions, BodyAssigns, BodyReads, first, later]
    grind

end

mutual

/-- Pruning adds no name. -/
theorem prune_mentions (stmt : Stmt) (mentions : stmt.prune.Mentions name) :
    stmt.Mentions name := by
  cases stmt with
  | block body => exact pruneBody_mentions body mentions
  | branch comparison lhs rhs ifTrue ifFalse =>
    rcases mentions with left | right | inTrue | inFalse
    · exact .inl left
    · exact .inr (.inl right)
    · exact .inr (.inr (.inl (prune_mentions ifTrue inTrue)))
    · exact .inr (.inr (.inr (prune_mentions ifFalse inFalse)))
  | loop body => exact prune_mentions body mentions
  | _ => exact mentions

theorem pruneBody_mentions (body : List Stmt) (mentions : BodyMentions name (pruneBody body)) :
    BodyMentions name body := by
  cases body with
  | nil => exact mentions
  | cons stmt rest =>
    rw [pruneBody_cons] at mentions
    rcases mentions with first | later
    · exact .inl (prune_mentions stmt first)
    · split at later
      · exact .inr (pruneBody_mentions rest later)
      · cases later

end

end Stmt

/-! ### Java statements -/

mutual

/-- The Java statement assigns or reads the variable somewhere. -/
def Java.Stmt.Mentions (name : String) : Java.Stmt → Prop
  | .block body => Java.BodyMentions name body
  | .assign target value => target = name ∨ value.Mentions name
  | .ifThen _ lhs rhs ifTrue => lhs.Mentions name ∨ rhs.Mentions name ∨ ifTrue.Mentions name
  | .ifElse _ lhs rhs ifTrue ifFalse =>
    lhs.Mentions name ∨ rhs.Mentions name ∨ Java.BodyMentions name ifTrue ∨ ifFalse.Mentions name
  | .whileTrue body => body.Mentions name
  | .leave => False
  | .println value => value.Mentions name

def Java.BodyMentions (name : String) : List Java.Stmt → Prop
  | [] => False
  | stmt :: rest => stmt.Mentions name ∨ Java.BodyMentions name rest

end

private theorem Java.Stmt.braced_mentions (stmt : Java.Stmt) :
    Java.BodyMentions name stmt.braced ↔ stmt.Mentions name := by
  cases stmt <;> simp [Java.Stmt.braced, Java.BodyMentions, Java.Stmt.Mentions]

namespace Stmt

mutual

/-- The Java statement mentions nothing else. -/
theorem toJava_mentions (stmt : Stmt) (mentions : stmt.toJava.Mentions name) : stmt.Mentions name := by
  cases stmt with
  | block body =>
    rw [toJava_block] at mentions
    exact bodyToJava_mentions body mentions
  | assign target value =>
    rw [toJava_assign] at mentions
    exact mentions
  | branch comparison lhs rhs ifTrue ifFalse =>
    by_cases empty : ifFalse = block []
    · subst empty
      rw [toJava_branch_empty] at mentions
      rcases mentions with left | right | inTrue
      · exact .inl left
      · exact .inr (.inl right)
      · exact .inr (.inr (.inl (toJava_mentions ifTrue inTrue)))
    · rw [toJava_branch _ _ _ _ _ empty] at mentions
      rcases mentions with left | right | inTrue | inFalse
      · exact .inl left
      · exact .inr (.inl right)
      · have inTrue := (Java.Stmt.braced_mentions _).mp inTrue
        exact .inr (.inr (.inl (toJava_mentions ifTrue inTrue)))
      · exact .inr (.inr (.inr (toJava_mentions ifFalse inFalse)))
  | loop body =>
    rw [toJava_loop] at mentions
    exact toJava_mentions body mentions
  | exit =>
    rw [toJava_exit] at mentions
    cases mentions
  | print value =>
    rw [toJava_print] at mentions
    exact mentions

theorem bodyToJava_mentions (body : List Stmt) (mentions : Java.BodyMentions name (bodyToJava body)) :
    BodyMentions name body := by
  cases body with
  | nil =>
    rw [bodyToJava_nil] at mentions
    cases mentions
  | cons stmt rest =>
    rw [bodyToJava_cons] at mentions
    rcases mentions with first | later
    · exact .inl (toJava_mentions stmt first)
    · split at later
      · exact .inr (bodyToJava_mentions rest later)
      · cases later

end

end Stmt

namespace Node

/-- A full walk from the node meets the name. -/
private def Meets (name : String) (depth : Nat) (role : Option Role) (root : Node) : Prop :=
  ∃ visit ∈ root.walkFrom (fun _ => false) depth role, visit.node.name? = some name

private theorem meets_iff (depth : Nat) (role : Option Role) (root : Node) :
    root.Meets name depth role ↔ root.name? = some name ∨
      ∃ child ∈ root.children, child.2.Meets name (depth + 1) (some child.1) := by
  simp only [Meets, walkFrom_eq _ depth, Bool.false_eq_true, if_false, List.mem_cons, List.mem_flatMap]
  constructor
  · rintro ⟨visit, rfl | ⟨child, held, inside⟩, named⟩
    · exact .inl named
    · exact .inr ⟨child, held, visit, inside, named⟩
  · rintro (named | ⟨child, held, visit, inside, named⟩)
    · exact ⟨_, .inl rfl, named⟩
    · exact ⟨visit, .inr ⟨child, held, inside⟩, named⟩

private theorem expr_meets_iff (depth : Nat) (role : Option Role) (expression : Expr) :
    (expr expression).Meets name depth role ↔ expression.Mentions name := by
  induction expression generalizing depth role with
  | binary operator lhs rhs left right =>
    rw [meets_iff]
    simp [name?, children, Expr.Mentions, left, right]
  | _ =>
    rw [meets_iff]
    simp [name?, children, Expr.Mentions]

mutual

private theorem stmt_meets_iff (depth : Nat) (role : Option Role) (statement : Stmt) :
    (stmt statement).Meets name depth role ↔ statement.Mentions name := by
  cases statement with
  | block body =>
    have each := body_meets_iff body
    rw [meets_iff, Stmt.Mentions, Stmt.bodyMentions_iff]
    constructor
    · rintro (own | ⟨child, held, meets⟩)
      · cases own
      · obtain ⟨position, bound, rfl⟩ := List.mem_mapIdx.mp held
        exact ⟨_, List.getElem_mem bound, (each _ (List.getElem_mem bound) _ _).mp meets⟩
    · rintro ⟨inside, held, mentions⟩
      obtain ⟨position, bound, rfl⟩ := List.mem_iff_getElem.mp held
      exact .inr ⟨_, List.mem_mapIdx.mpr ⟨position, bound, rfl⟩, (each _ held _ _).mpr mentions⟩
  | branch comparison lhs rhs ifTrue ifFalse =>
    rw [meets_iff]
    simp [name?, children, Stmt.Mentions, expr_meets_iff, stmt_meets_iff _ _ ifTrue,
      stmt_meets_iff _ _ ifFalse]
  | loop body =>
    rw [meets_iff]
    simp [name?, children, Stmt.Mentions, stmt_meets_iff _ _ body]
  | _ =>
    rw [meets_iff]
    simp [name?, children, Stmt.Mentions, expr_meets_iff]

private theorem body_meets_iff (body : List Stmt) :
    ∀ inside ∈ body, ∀ depth role,
      (stmt inside).Meets name depth role ↔ inside.Mentions name := by
  cases body with
  | nil => simp
  | cons first rest =>
    intro inside held depth role
    rcases List.mem_cons.mp held with same | later
    · rw [same]
      exact stmt_meets_iff depth role first
    · exact body_meets_iff rest inside later depth role

end

end Node

namespace Stmt

/-- The collected variables are the names that the program mentions. -/
theorem mem_names_iff (program : Stmt) : name ∈ program.names ↔ program.Mentions name := by
  rw [mem_names, ← Node.stmt_meets_iff 0 none program]
  rfl

/-- The Java program uses no other names than its declarations. -/
theorem mem_names_of_body {className : String} {program : Stmt}
    (mentions : Java.BodyMentions name (program.toJavaProgram className).body) :
    name ∈ program.names := by
  rw [toJavaProgram_body, Java.Stmt.braced_mentions] at mentions
  exact (mem_names_iff program).mpr (toJava_mentions program mentions)

end Stmt
end LoopLang
