import LoopLang.Java.Expr
import LoopLang.Stmt.Ways

/-! Java statements that do what the language's statements do. Java refuses code that it can see is
never reached, so a statement is pruned before it is taken over. A conditional with nothing to do
otherwise has no `else`; any other one has its first branch in braces, so that the `else` cannot
belong to an `if` inside it. -/
namespace LoopLang

/-- The Java statements that are needed. -/
inductive Java.Stmt where
  | block (body : List Java.Stmt)
  | assign (name : String) (value : Expr)
  /-- An `if` without `else`. -/
  | ifThen (comparison : Comparison) (lhs rhs : Expr) (ifTrue : Java.Stmt)
  /-- An `if` with its first branch in braces and an `else`. -/
  | ifElse (comparison : Comparison) (lhs rhs : Expr) (ifTrue : List Java.Stmt) (ifFalse : Java.Stmt)
  /-- A `while` whose condition is the literal `true`. -/
  | whileTrue (body : Java.Stmt)
  | leave
  | println (value : Expr)
deriving Inhabited, Repr

/-- The statements that stand between braces when the statement is put into them. -/
def Java.Stmt.braced : Java.Stmt → List Java.Stmt
  | block body => body
  | other => [other]

namespace Stmt

mutual

/-- The Java statement with the same parts. -/
def translate : Stmt → Java.Stmt
  | block body => .block (translateBody body)
  | assign name value => .assign name value
  | branch comparison lhs rhs ifTrue (block []) => .ifThen comparison lhs rhs ifTrue.translate
  | branch comparison lhs rhs ifTrue ifFalse =>
    .ifElse comparison lhs rhs ifTrue.translate.braced ifFalse.translate
  | loop body => .whileTrue body.translate
  | exit => .leave
  | print value => .println value

/-- The Java statements with the same parts. -/
def translateBody : List Stmt → List Java.Stmt
  | [] => []
  | stmt :: rest => stmt.translate :: translateBody rest

end

/-- The Java statement that does what the statement does. -/
def toJava (stmt : Stmt) : Java.Stmt := stmt.prune.translate

/-- The Java statements that do what the statements do in sequence. -/
def bodyToJava (body : List Stmt) : List Java.Stmt := translateBody (pruneBody body)

/-! ### Java statements by parts -/

@[simp] theorem toJava_block (body : List Stmt) : (block body).toJava = .block (bodyToJava body) := by
  simp [toJava, bodyToJava, translate]

@[simp] theorem toJava_assign (name : String) (value : Expr) :
    (assign name value).toJava = .assign name value := by
  simp [toJava, translate]

@[simp] theorem toJava_loop (body : Stmt) : (loop body).toJava = .whileTrue body.toJava := by
  simp [toJava, translate]

@[simp] theorem toJava_exit : exit.toJava = .leave := by
  simp [toJava, translate]

@[simp] theorem toJava_print (value : Expr) : (print value).toJava = .println value := by
  simp [toJava, translate]

/-- A conditional with nothing to do otherwise has no `else`. -/
@[simp] theorem toJava_branch_empty (comparison : Comparison) (lhs rhs : Expr) (ifTrue : Stmt) :
    (branch comparison lhs rhs ifTrue (block [])).toJava =
      .ifThen comparison lhs rhs ifTrue.toJava := by
  simp [toJava, translate]

/-- Pruning makes no statement empty. -/
theorem prune_eq_empty_iff (stmt : Stmt) : stmt.prune = block [] ↔ stmt = block [] := by
  cases stmt with
  | block body => cases body <;> simp
  | _ => simp

/-- Any other conditional has an `else`, and braces before it. -/
theorem toJava_branch (comparison : Comparison) (lhs rhs : Expr) (ifTrue ifFalse : Stmt)
    (otherwise : ifFalse ≠ block []) :
    (branch comparison lhs rhs ifTrue ifFalse).toJava =
      .ifElse comparison lhs rhs ifTrue.toJava.braced ifFalse.toJava := by
  rw [toJava, prune_branch, translate]
  · rfl
  · exact fun empty => otherwise ((prune_eq_empty_iff ifFalse).mp empty)

@[simp] theorem bodyToJava_nil : bodyToJava [] = [] := by
  simp [bodyToJava, translateBody]

/-- The rest of a sequence is taken over only behind a statement that can complete. -/
@[simp] theorem bodyToJava_cons (stmt : Stmt) (rest : List Stmt) :
    bodyToJava (stmt :: rest) =
      stmt.toJava :: if stmt.ways.completes then bodyToJava rest else [] := by
  rw [bodyToJava, pruneBody_cons, translateBody]
  split <;> simp [toJava, bodyToJava, translateBody]

end Stmt
end LoopLang
