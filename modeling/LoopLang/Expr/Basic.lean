import LoopLang.Number.Basic

/-! Expressions over doubles, the operators and comparisons that the language offers, and what can go wrong while
a program runs. Each cause of an error carries what its message needs. -/
namespace LoopLang

/-- The causes that end a run early. -/
inductive RunError where
  /-- A variable was read before any assignment to it. -/
  | undefinedVariable (name : String)
  /-- A divisor was zero, of either sign. -/
  | divisionByZero
  /-- An exit reached the end of the program without a loop to leave. -/
  | exitOutsideLoop
  /-- More statements were started than the limit allows. -/
  | budgetExhausted (limit : Nat)
deriving DecidableEq, Repr

/-- The text shown to the user. -/
def RunError.message : RunError → String
  | .undefinedVariable name => "undefined variable: " ++ name
  | .divisionByZero => "division by zero"
  | .exitOutsideLoop => "loop exit outside of any loop"
  | .budgetExhausted limit => "step budget exhausted (limit: " ++ toString limit ++ ")"

/-- The arithmetic operators. -/
inductive Operator where
  | add
  | sub
  | mul
  | div
  | pow
deriving DecidableEq, Hashable, Repr

namespace Operator

/-- The sign of the operator. -/
def symbol : Operator → String
  | add => "+"
  | sub => "-"
  | mul => "*"
  | div => "/"
  | pow => "^"

/-- Arithmetic on doubles, except that a zero divisor of either sign is refused. -/
def apply : Operator → Float → Float → Except RunError Float
  | add, left, right => .ok (left + right)
  | sub, left, right => .ok (left - right)
  | mul, left, right => .ok (left * right)
  | div, left, right => if right == 0.0 then .error .divisionByZero else .ok (left / right)
  | pow, left, right => .ok (left ^ right)

end Operator

/-- The tests of a conditional statement. -/
inductive Comparison where
  | eq
  | ne
  | lt
  | le
  | gt
  | ge
deriving DecidableEq, Hashable, Repr

namespace Comparison

/-- The sign of the comparison. -/
def symbol : Comparison → String
  | eq => "=="
  | ne => "!="
  | lt => "<"
  | le => "<="
  | gt => ">"
  | ge => ">="

/-- The order of doubles: the zeros are equal, and a NaN differs from everything. -/
def holds : Comparison → Float → Float → Bool
  | eq, left, right => left == right
  | ne, left, right => left != right
  | lt, left, right => decide (left < right)
  | le, left, right => decide (left ≤ right)
  | gt, left, right => decide (right < left)
  | ge, left, right => decide (right ≤ left)

end Comparison

/-- An expression. -/
inductive Expr where
  | constant (number : Number)
  | var (name : String)
  | binary (operator : Operator) (lhs rhs : Expr)
deriving DecidableEq, Hashable, Repr

end LoopLang
