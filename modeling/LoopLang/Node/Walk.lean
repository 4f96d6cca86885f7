import Std.Data.ExtTreeSet
import LoopLang.Node.Basic

/-! The walk over a tree: a node comes before its children, and these in their order. The walk can be
told not to go below some kinds of nodes. It records how deep each node stands and in which role,
so the outline of a tree, with one line for each node, is read off the walk, and so are the variables
of a program. The walk is built from the front in one pass; `walkFrom_eq` states what it is in terms of
the children of a node. -/
namespace LoopLang

/-- A node met on a walk. -/
structure Visit where
  /-- The number of nodes above. -/
  depth : Nat
  /-- The role below the parent; the root has none. -/
  role : Option Role
  node : Node
deriving DecidableEq

/-- Adds the visits of an expression to the visits before it. -/
def Expr.walkAfter (stop : Kind → Bool) (depth : Nat) (role : Option Role) (expr : Expr)
    (before : Array Visit) : Array Visit :=
  let before := before.push ⟨depth, role, .expr expr⟩
  if stop expr.kind then before
  else
    match expr with
    | .constant _ | .var _ => before
    | .binary _ lhs rhs =>
      rhs.walkAfter stop (depth + 1) (some .rhs) (lhs.walkAfter stop (depth + 1) (some .lhs) before)

mutual

/-- Adds the visits of a statement to the visits before it. -/
def Stmt.walkAfter (stop : Kind → Bool) (depth : Nat) (role : Option Role) (stmt : Stmt)
    (before : Array Visit) : Array Visit :=
  let before := before.push ⟨depth, role, .stmt stmt⟩
  if stop stmt.kind then before
  else
    match stmt with
    | .block body => walkBodyAfter stop (depth + 1) 0 body before
    | .assign _ value => value.walkAfter stop (depth + 1) (some .value) before
    | .branch _ lhs rhs ifTrue ifFalse =>
      let before := lhs.walkAfter stop (depth + 1) (some .lhs) before
      let before := rhs.walkAfter stop (depth + 1) (some .rhs) before
      let before := ifTrue.walkAfter stop (depth + 1) (some .ifTrue) before
      ifFalse.walkAfter stop (depth + 1) (some .ifFalse) before
    | .loop body => body.walkAfter stop (depth + 1) (some .body) before
    | .exit => before
    | .print value => value.walkAfter stop (depth + 1) (some .value) before

/-- Adds the visits of the statements of a block, from the given position on. -/
def Stmt.walkBodyAfter (stop : Kind → Bool) (depth position : Nat) (body : List Stmt)
    (before : Array Visit) : Array Visit :=
  match body with
  | [] => before
  | stmt :: rest =>
    walkBodyAfter stop depth (position + 1) rest
      (stmt.walkAfter stop depth (some (.index position)) before)

end

namespace Node

/-- The visits of a walk from a node that stands at a depth and in a role. -/
def walkFrom (stop : Kind → Bool) (depth : Nat) (role : Option Role) : Node → List Visit
  | stmt statement => (statement.walkAfter stop depth role #[]).toList
  | expr expression => (expression.walkAfter stop depth role #[]).toList

/-- The visits of a walk from the root, which does not go below kinds that stop it. -/
def walk (stop : Kind → Bool) (root : Node) : List Visit := root.walkFrom stop 0 none

/-- Every node of the tree, each before its children. -/
def visits (root : Node) : List Visit := root.walk fun _ => false

/-- The statements of the tree in the order of the walk. -/
def statements (root : Node) : List Stmt :=
  root.visits.filterMap fun visit =>
    match visit.node with
    | .stmt statement => some statement
    | .expr _ => none

/-- The expressions of the tree in the order of the walk. -/
def expressions (root : Node) : List Expr :=
  root.visits.filterMap fun visit =>
    match visit.node with
    | .stmt _ => none
    | .expr expression => some expression

end Node

/-- The line of the outline for one node: two blanks for each node above, the role and the label. -/
def Visit.line (visit : Visit) : String :=
  let label := match visit.role with
    | some role => role.text ++ ": " ++ visit.node.label
    | none => visit.node.label
  String.ofList (List.replicate (2 * visit.depth) ' ') ++ label

/-- The tree with one line for each node. -/
def Node.outline (root : Node) : String :=
  root.visits.foldl (fun text visit => (text ++ visit.line).push '\n') ""

/-! ### The walk by children -/

/-- What comes before an expression has no part in its visits. -/
private theorem Expr.walkAfter_eq (stop : Kind → Bool) (depth : Nat) (role : Option Role)
    (expr : Expr) (before : Array Visit) : expr.walkAfter stop depth role before =
      before ++ expr.walkAfter stop depth role #[] := by
  induction expr generalizing depth role before with
  | constant number => simp [Expr.walkAfter]
  | var name => simp [Expr.walkAfter]
  | binary operator lhs rhs left right =>
    simp only [Expr.walkAfter]
    split
    · simp
    · rw [right, left, right _ _ (lhs.walkAfter _ _ _ _), left _ _ (Array.push _ _)]
      simp

mutual

/-- What comes before a statement has no part in its visits. -/
private theorem Stmt.walkAfter_eq (stop : Kind → Bool) (depth : Nat) (role : Option Role)
    (stmt : Stmt) (before : Array Visit) : stmt.walkAfter stop depth role before =
      before ++ stmt.walkAfter stop depth role #[] := by
  cases stmt with
  | block body =>
    simp only [Stmt.walkAfter]
    split
    · simp
    · rw [Stmt.walkBodyAfter_eq, Stmt.walkBodyAfter_eq _ _ _ _ (Array.push #[] _)]
      simp
  | assign name value =>
    simp only [Stmt.walkAfter]
    split
    · simp
    · rw [Expr.walkAfter_eq, Expr.walkAfter_eq _ _ _ _ (Array.push #[] _)]
      simp
  | branch comparison lhs rhs ifTrue ifFalse =>
    simp only [Stmt.walkAfter]
    split
    · simp
    · rw [Stmt.walkAfter_eq _ _ _ ifFalse, Stmt.walkAfter_eq _ _ _ ifTrue,
        Expr.walkAfter_eq _ _ _ rhs, Expr.walkAfter_eq _ _ _ lhs,
        Stmt.walkAfter_eq _ _ _ ifFalse (Stmt.walkAfter _ _ _ _ _),
        Stmt.walkAfter_eq _ _ _ ifTrue (Expr.walkAfter _ _ _ _ _),
        Expr.walkAfter_eq _ _ _ rhs (Expr.walkAfter _ _ _ _ _),
        Expr.walkAfter_eq _ _ _ lhs (Array.push #[] _)]
      simp
  | loop body =>
    simp only [Stmt.walkAfter]
    split
    · simp
    · rw [Stmt.walkAfter_eq _ _ _ body, Stmt.walkAfter_eq _ _ _ body (Array.push #[] _)]
      simp
  | exit => simp [Stmt.walkAfter]
  | print value =>
    simp only [Stmt.walkAfter]
    split
    · simp
    · rw [Expr.walkAfter_eq, Expr.walkAfter_eq _ _ _ _ (Array.push #[] _)]
      simp

/-- What comes before the statements of a block has no part in their visits. -/
private theorem Stmt.walkBodyAfter_eq (stop : Kind → Bool) (depth position : Nat) (body : List Stmt)
    (before : Array Visit) : Stmt.walkBodyAfter stop depth position body before =
      before ++ Stmt.walkBodyAfter stop depth position body #[] := by
  cases body with
  | nil => simp [Stmt.walkBodyAfter]
  | cons stmt rest =>
    simp only [Stmt.walkBodyAfter]
    rw [Stmt.walkBodyAfter_eq _ _ _ rest, Stmt.walkAfter_eq _ _ _ stmt,
      Stmt.walkBodyAfter_eq _ _ _ rest (Stmt.walkAfter _ _ _ _ _)]
    simp

end

/-- The statements of a block are walked one after the other, each in the role of its position. -/
private theorem Stmt.walkBody_eq (stop : Kind → Bool) (depth position : Nat) (body : List Stmt) :
    (Stmt.walkBodyAfter stop depth position body #[]).toList =
      (body.mapIdx fun offset stmt =>
        (Node.stmt stmt).walkFrom stop depth (some (.index (position + offset)))).flatten := by
  induction body generalizing position with
  | nil => simp [Stmt.walkBodyAfter]
  | cons stmt rest inside =>
    rw [Stmt.walkBodyAfter, Stmt.walkBodyAfter_eq, Array.toList_append, inside]
    simp [List.mapIdx_cons, Node.walkFrom, Nat.add_assoc, Nat.add_comm 1]

/-- A walk begins with its root and goes on with the walks of the children in their order, unless
the root stops it. -/
theorem Node.walkFrom_eq (stop : Kind → Bool) (depth : Nat) (role : Option Role) (root : Node) :
    root.walkFrom stop depth role = ⟨depth, role, root⟩ ::
      if stop root.kind then []
      else root.children.flatMap fun child => child.2.walkFrom stop (depth + 1) (some child.1) := by
  by_cases stopped : stop root.kind = true
  · cases root with
    | stmt statement =>
      cases statement <;> simp_all [walkFrom, Stmt.walkAfter, kind]
    | expr expression =>
      cases expression <;> simp_all [walkFrom, Expr.walkAfter, kind]
  · cases root with
    | stmt statement =>
      rw [kind] at stopped
      cases statement with
      | block body =>
        simp only [walkFrom, Stmt.walkAfter, kind, children, stopped]
        rw [if_neg Bool.false_ne_true, Stmt.walkBodyAfter_eq, Array.toList_append, Stmt.walkBody_eq]
        simp [List.flatMap_def, List.mapIdx_eq_zipIdx_map, Function.comp_def, walkFrom]
      | branch comparison lhs rhs ifTrue ifFalse =>
        simp only [walkFrom, Stmt.walkAfter, kind, children, stopped]
        rw [if_neg Bool.false_ne_true, Stmt.walkAfter_eq _ _ _ ifFalse,
          Stmt.walkAfter_eq _ _ _ ifTrue, Expr.walkAfter_eq _ _ _ rhs, Expr.walkAfter_eq _ _ _ lhs]
        simp
      | loop body =>
        simp only [walkFrom, Stmt.walkAfter, kind, children, stopped]
        rw [if_neg Bool.false_ne_true, Stmt.walkAfter_eq _ _ _ body]
        simp
      | exit => simp [walkFrom, Stmt.walkAfter, children]
      | _ =>
        simp only [walkFrom, Stmt.walkAfter, kind, children, stopped]
        rw [if_neg Bool.false_ne_true, Expr.walkAfter_eq]
        simp
    | expr expression =>
      rw [kind] at stopped
      cases expression with
      | binary operator lhs rhs =>
        simp only [walkFrom, Expr.walkAfter, kind, children, stopped]
        rw [if_neg Bool.false_ne_true, Expr.walkAfter_eq _ _ _ rhs, Expr.walkAfter_eq _ _ _ lhs]
        simp
      | _ => simp [walkFrom, Expr.walkAfter, children]

/-! ### Variables -/

/-- The variable that a node itself assigns or reads. -/
def Node.name? : Node → Option String
  | .stmt (.assign name _) => some name
  | .expr (.var name) => some name
  | _ => none

/-- The variables of a program: every name that is assigned or read anywhere in it, whether or not control
ever gets there, once and in the order of the names' characters. -/
def Stmt.names (program : Stmt) : List String :=
  (Std.ExtTreeSet.ofList ((Node.stmt program).visits.filterMap fun visit => visit.node.name?)).toList

/-- The variables are the names of the nodes. -/
theorem Stmt.mem_names (program : Stmt) (name : String) :
    name ∈ program.names ↔ ∃ visit ∈ (Node.stmt program).visits, visit.node.name? = some name := by
  simp [Stmt.names, Std.ExtTreeSet.mem_toList, Std.ExtTreeSet.mem_ofList]

/-- The variables are in strictly increasing order. -/
theorem Stmt.names_increasing (program : Stmt) :
    program.names.Pairwise fun first second => compare first second = .lt :=
  Std.ExtTreeSet.ordered_toList

end LoopLang
