import LoopLang.Expr.Basic

/-! Statements. The only repetition is an endless loop, and the only way to leave it is an exit,
which belongs to the nearest loop around it. -/
namespace LoopLang

/-- A statement; a program is one statement. -/
inductive Stmt where
  /-- Statements in sequence. -/
  | block (body : List Stmt)
  /-- Gives a variable a value. -/
  | assign (name : String) (value : Expr)
  /-- Runs one of two statements. -/
  | branch (comparison : Comparison) (lhs rhs : Expr) (ifTrue ifFalse : Stmt)
  /-- Repeats its body until an exit. -/
  | loop (body : Stmt)
  /-- Leaves the nearest loop. -/
  | exit
  /-- Prints a value on a line of its own. -/
  | print (value : Expr)
deriving Inhabited, Repr

namespace Stmt

mutual

/-- Whether two statements have the same shape, names, operators and constant bits. -/
def same : Stmt → Stmt → Bool
  | block body, block body' => sameBody body body'
  | assign name value, assign name' value' => decide (name = name') && decide (value = value')
  | branch comparison lhs rhs ifTrue ifFalse, branch comparison' lhs' rhs' ifTrue' ifFalse' =>
    decide (comparison = comparison') && decide (lhs = lhs') && decide (rhs = rhs') &&
      ifTrue.same ifTrue' && ifFalse.same ifFalse'
  | loop body, loop body' => body.same body'
  | exit, exit => true
  | print value, print value' => decide (value = value')
  | _, _ => false

/-- Whether two sequences agree statement by statement. -/
def sameBody : List Stmt → List Stmt → Bool
  | [], [] => true
  | stmt :: rest, stmt' :: rest' => stmt.same stmt' && sameBody rest rest'
  | _, _ => false

end

mutual

/-- The comparison by shape is equality. -/
theorem same_eq_true_iff (first second : Stmt) : first.same second = true ↔ first = second := by
  cases first with
  | block body =>
    cases second with
    | block body' => simp [same, sameBody_eq_true_iff body body']
    | _ => simp [same]
  | branch comparison lhs rhs ifTrue ifFalse =>
    cases second with
    | branch comparison' lhs' rhs' ifTrue' ifFalse' =>
      simp [same, same_eq_true_iff ifTrue ifTrue', same_eq_true_iff ifFalse ifFalse', and_assoc]
    | _ => simp [same]
  | loop body =>
    cases second with
    | loop body' => simp [same, same_eq_true_iff body body']
    | _ => simp [same]
  | _ => cases second <;> simp [same]

/-- The comparison of sequences is equality. -/
theorem sameBody_eq_true_iff (first second : List Stmt) :
    sameBody first second = true ↔ first = second := by
  cases first with
  | nil => cases second <;> simp [sameBody]
  | cons stmt rest =>
    cases second with
    | nil => simp [sameBody]
    | cons stmt' rest' =>
      simp [sameBody, same_eq_true_iff stmt stmt', sameBody_eq_true_iff rest rest']

end

instance : DecidableEq Stmt := fun first second =>
  decidable_of_iff (first.same second = true) (same_eq_true_iff first second)

mutual

/-- A hash that depends on the whole statement. -/
def hashCode : Stmt → UInt64
  | block body => mixHash 1 (hashBody 7 body)
  | assign name value => mixHash 2 (mixHash (hash name) (hash value))
  | branch comparison lhs rhs ifTrue ifFalse =>
    mixHash (mixHash (hash comparison) (mixHash (hash lhs) (hash rhs)))
      (mixHash ifTrue.hashCode ifFalse.hashCode)
  | loop body => mixHash 3 body.hashCode
  | exit => 4
  | print value => mixHash 5 (hash value)

/-- Mixes the hashes of a sequence into a seed. -/
def hashBody (seed : UInt64) : List Stmt → UInt64
  | [] => seed
  | stmt :: rest => hashBody (mixHash seed stmt.hashCode) rest

end

instance : Hashable Stmt := ⟨hashCode⟩

end Stmt
end LoopLang
