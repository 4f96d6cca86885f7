import LoopLang.Number.Style
import LoopLang.Stmt.Basic

/-! Programs as trees. Statements and expressions are the nodes; each child has a role, and children
stand in the order in which they are evaluated and written. A node's label names its kind and what
it holds besides its children. -/
namespace LoopLang

/-- The place of a child below its parent. -/
inductive Role where
  /-- A statement of a block, counted from zero. -/
  | index (position : Nat)
  | value
  | lhs
  | rhs
  | ifTrue
  | ifFalse
  | body
deriving DecidableEq, Repr

/-- The name of a role. -/
def Role.text : Role → String
  | index position => toString position
  | value => "value"
  | lhs => "lhs"
  | rhs => "rhs"
  | ifTrue => "ifTrue"
  | ifFalse => "ifFalse"
  | body => "body"

/-- The kinds of nodes. -/
inductive Kind where
  | block
  | assign
  | branch
  | loop
  | exit
  | print
  | constant
  | var
  | binary
deriving DecidableEq, Repr

/-- The name of a kind. -/
def Kind.text : Kind → String
  | block => "Block"
  | assign => "Assignment"
  | branch => "Conditional"
  | loop => "Loop"
  | exit => "LoopExit"
  | print => "Print"
  | constant => "Constant"
  | .var => "Variable"
  | binary => "BinaryExpression"

/-- The kind of an expression. -/
def Expr.kind : Expr → Kind
  | .constant _ => .constant
  | .var _ => .var
  | .binary _ _ _ => .binary

/-- The kind of a statement. -/
def Stmt.kind : Stmt → Kind
  | block _ => .block
  | assign _ _ => .assign
  | branch _ _ _ _ _ => .branch
  | loop _ => .loop
  | exit => .exit
  | print _ => .print

/-- A statement or an expression. -/
inductive Node where
  | stmt (statement : Stmt)
  | expr (expression : Expr)
deriving DecidableEq, Hashable, Repr

namespace Node

/-- The kind of a node. -/
def kind : Node → Kind
  | stmt statement => statement.kind
  | expr expression => expression.kind

/-- Constants in a label are plain from a ten-thousandth up to ten to the sixteenth, else like `1e16`. -/
def numberStyle : Number.Style where
  plainFrom := -4
  plainUpTo := 15
  mark := 'e'
  padded := false
  nan := "NaN"
  infinity := "inf"
  minusInfinity := "-inf"

/-- What a node holds besides its children. -/
def detail? : Node → Option String
  | stmt (.assign name _) => some name
  | stmt (.branch comparison _ _ _ _) => some comparison.symbol
  | stmt _ => none
  | expr (.constant number) => some (number.write numberStyle)
  | expr (.var name) => some name
  | expr (.binary operator _ _) => some operator.symbol

/-- The kind, with the detail in parentheses. -/
def label (node : Node) : String :=
  match node.detail? with
  | some detail => node.kind.text ++ " (" ++ detail ++ ")"
  | none => node.kind.text

/-- The children of a node with their roles. -/
def children : Node → List (Role × Node)
  | stmt (.block body) => body.mapIdx fun position child => (.index position, stmt child)
  | stmt (.assign _ value) => [(.value, expr value)]
  | stmt (.branch _ lhs rhs ifTrue ifFalse) =>
    [(.lhs, expr lhs), (.rhs, expr rhs), (.ifTrue, stmt ifTrue), (.ifFalse, stmt ifFalse)]
  | stmt (.loop body) => [(.body, stmt body)]
  | stmt .exit => []
  | stmt (.print value) => [(.value, expr value)]
  | expr (.constant _) => []
  | expr (.var _) => []
  | expr (.binary _ lhs rhs) => [(.lhs, expr lhs), (.rhs, expr rhs)]

end Node
end LoopLang
