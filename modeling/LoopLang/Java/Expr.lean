import LoopLang.Expr.Basic
import LoopLang.Number.Style

/-! Expressions in Java. Every operation has its own parentheses, so the reader's precedence never
matters; the power is a call. -/
namespace LoopLang

/-- Literals are plain from a ten-thousandth up to ten to the sixteenth, and else like `1e16`; values
without digits are named by constants of the class `Double`. -/
def Java.numberStyle : Number.Style where
  plainFrom := -4
  plainUpTo := 15
  mark := 'e'
  padded := false
  nan := "Double.NaN"
  infinity := "Double.POSITIVE_INFINITY"
  minusInfinity := "Double.NEGATIVE_INFINITY"

/-- The literal of a number. -/
def Java.literal (number : Number) : String := number.write Java.numberStyle

/-- Adds the Java text of an expression to a text. -/
def Expr.javaAfter (text : String) : Expr → String
  | .constant number => text ++ Java.literal number
  | .var name => text ++ name
  | .binary .pow lhs rhs =>
    (rhs.javaAfter ((lhs.javaAfter (text ++ "Math.pow(")) ++ ", ")).push ')'
  | .binary operator lhs rhs =>
    (rhs.javaAfter ((lhs.javaAfter (text.push '(')) ++ " " ++ operator.symbol ++ " ")).push ')'

/-- The Java text of an expression. -/
def Expr.javaText (expr : Expr) : String := expr.javaAfter ""

/-- What comes before an expression has no part in its text. -/
theorem Expr.javaAfter_eq (text : String) (expr : Expr) :
    expr.javaAfter text = text ++ expr.javaText := by
  induction expr generalizing text with
  | constant number => simp [Expr.javaText, Expr.javaAfter]
  | var name => simp [Expr.javaText, Expr.javaAfter]
  | binary operator lhs rhs left right =>
    cases operator with
    | pow =>
      simp only [Expr.javaText, Expr.javaAfter]
      rw [right, left, right (Expr.javaAfter _ _ ++ _), left (_ ++ _)]
      simp [String.append_assoc, String.push_eq_append]
    | _ =>
      simp only [Expr.javaText, Expr.javaAfter]
      rw [right, left, right (Expr.javaAfter _ _ ++ _ ++ _ ++ _), left (String.push "" _)]
      simp [String.append_assoc, String.push_eq_append]

@[simp] theorem Expr.javaText_constant (number : Number) :
    (Expr.constant number).javaText = Java.literal number := by
  simp [Expr.javaText, Expr.javaAfter]

@[simp] theorem Expr.javaText_var (name : String) : (Expr.var name).javaText = name := by
  simp [Expr.javaText, Expr.javaAfter]

/-- The power is a call. -/
theorem Expr.javaText_pow (lhs rhs : Expr) :
    (Expr.binary .pow lhs rhs).javaText =
      "Math.pow(" ++ lhs.javaText ++ ", " ++ rhs.javaText ++ ")" := by
  rw [Expr.javaText, Expr.javaAfter, Expr.javaAfter_eq, Expr.javaAfter_eq]
  simp [String.append_assoc, String.push_eq_append]

/-- Every other operation stands between its operands, in parentheses. -/
theorem Expr.javaText_binary (operator : Operator) (lhs rhs : Expr) (notPower : operator ≠ .pow) :
    (Expr.binary operator lhs rhs).javaText =
      "(" ++ lhs.javaText ++ " " ++ operator.symbol ++ " " ++ rhs.javaText ++ ")" := by
  rw [Expr.javaText, Expr.javaAfter, Expr.javaAfter_eq, Expr.javaAfter_eq]
  · simp [String.append_assoc, String.push_eq_append]
  · exact notPower

end LoopLang
