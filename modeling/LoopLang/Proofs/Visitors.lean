import LoopLang.Node.Walk
import LoopLang.Proofs.Labels

/-! Visitors. A visitor is asked at every node that it comes to, once for statements and once for expressions, and it
is handed the walk over the children of the node, to take or to leave. What it does not answer for itself is to walk
on. A visitor that does something at each node and then walks on, or stops at some kinds, does so at the nodes of the
walk in their order. -/
namespace LoopLang

/-- The statement that a node is. -/
def Node.statement? : Node → Option Stmt
  | stmt statement => some statement
  | expr _ => none

/-- The expression that a node is. -/
def Node.expression? : Node → Option Expr
  | stmt _ => none
  | expr expression => some expression

theorem Node.statements_eq (root : Node) : root.statements = root.visits.filterMap (·.node.statement?) := rfl

theorem Node.expressions_eq (root : Node) : root.expressions = root.visits.filterMap (·.node.expression?) := rfl

/-- What is done at statements and at expressions, when the walk below the node is at hand. -/
structure Visitor (State : Type) where
  onStmt : Stmt → (State → State) → State → State := fun _ below => below
  onExpr : Expr → (State → State) → State → State := fun _ below => below

namespace Visitor
variable {State Entry : Type}

/-- What is done at a node. -/
def on (visitor : Visitor State) : Node → (State → State) → State → State
  | .stmt statement => visitor.onStmt statement
  | .expr expression => visitor.onExpr expression

/-- The visit of a node. The walk below it visits the children in their order. -/
def visit (visitor : Visitor State) (root : Node) : State → State :=
  visitor.on root fun state =>
    root.children.attach.foldl (fun state ⟨child, _held⟩ => visitor.visit child.2 state) state
termination_by sizeOf root
decreasing_by exact Node.sizeOf_child_lt root child _held

theorem visit_eq (visitor : Visitor State) (root : Node) : visitor.visit root =
    visitor.on root fun state => root.children.foldl (fun state child => visitor.visit child.2 state) state := by
  conv_rhs => rw [← List.attach_map_subtype_val root.children]
  simp only [List.foldl_map]
  rw [visit]

/-- At each node the visitor acts on the state and then walks on, except below the kinds that stop it. -/
def Acts (visitor : Visitor State) (act : State → Node → State) (stop : Kind → Bool) : Prop :=
  ∀ node below state, visitor.on node below state =
    if stop node.kind then act state node else below (act state node)

/-- Such a visitor acts at the nodes of the walk in their order. -/
private theorem visit_of_acts {visitor : Visitor State} {act : State → Node → State}
    {stop : Kind → Bool}
    (acts : visitor.Acts act stop) (root : Node) (depth : Nat) (role : Option Role) (state : State) :
    visitor.visit root state =
      (root.walkFrom stop depth role).foldl (fun state visit => act state visit.node) state := by
  induction root using Node.by_children generalizing depth role state with
  | step root below =>
    rw [visit_eq, acts, Node.walkFrom_eq, List.foldl_cons]
    split
    · rfl
    · rw [List.foldl_flatMap]
      exact List.foldl_ext _ _ _ fun state child held => below child held _ _ state

/-! ### Logs -/

/-- Logs every node. -/
def logging (stop : Kind → Bool) : Visitor (List Node) where
  onStmt statement below log :=
    let log := log ++ [.stmt statement]
    if stop statement.kind then log else below log
  onExpr expression below log :=
    let log := log ++ [.expr expression]
    if stop expression.kind then log else below log

/-- Logs the statements, and leaves the expressions to the default. -/
def loggingStatements : Visitor (List Stmt) where
  onStmt statement below log := below (log ++ [statement])

/-- Logs the expressions, and leaves the statements to the default. -/
def loggingExpressions : Visitor (List Expr) where
  onExpr expression below log := below (log ++ [expression])

/-- A visitor that adds an entry for some nodes leaves the entries of the walk. -/
private theorem log_of_acts {visitor : Visitor (List Entry)} {entry : Node → Option Entry}
    {stop : Kind → Bool}
    (acts : visitor.Acts (fun log node => log ++ (entry node).toList) stop) (root : Node) :
    visitor.visit root [] = (root.walk stop).filterMap fun visit => entry visit.node := by
  have folded (visits : List Visit) (log : List Entry) :
      visits.foldl (fun log visit => log ++ (entry visit.node).toList) log =
        log ++ visits.filterMap fun visit => entry visit.node := by
    induction visits generalizing log with
    | nil => simp
    | cons visit visits later =>
      rw [List.foldl_cons, later, List.append_assoc]
      cases found : entry visit.node <;> simp [found]
  rw [visit_of_acts acts root 0 none, folded, List.nil_append, Node.walk]

theorem log_nodes (stop : Kind → Bool) (root : Node) :
    (logging stop).visit root [] = (root.walk stop).map Visit.node := by
  have acts : (logging stop).Acts (fun log node => log ++ (some node).toList) stop := by
    rintro (statement | expression) below log <;> rfl
  rw [log_of_acts acts]
  exact congrFun List.filterMap_eq_map' _

theorem log_statements (root : Node) : loggingStatements.visit root [] = root.statements := by
  have acts : loggingStatements.Acts (fun log node => log ++ node.statement?.toList) fun _ => false := by
    rintro (statement | expression) below log
    · rfl
    · simp [on, loggingStatements, Node.statement?]
  rw [log_of_acts acts, Node.statements_eq, Node.visits]

theorem log_expressions (root : Node) : loggingExpressions.visit root [] = root.expressions := by
  have acts : loggingExpressions.Acts (fun log node => log ++ node.expression?.toList) fun _ => false := by
    rintro (statement | expression) below log
    · simp [on, loggingExpressions, Node.expression?]
    · rfl
  rw [log_of_acts acts, Node.expressions_eq, Node.visits]

end Visitor
end LoopLang
