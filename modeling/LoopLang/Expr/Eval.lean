import LoopLang.Expr.Basic
import LoopLang.Store

/-! The value of an expression in a store. The left operand is evaluated before the right one and
both before the operator is applied, so the first failure in that order is the one reported. -/
namespace LoopLang

/-- The value of an expression, or the first cause that keeps it from having one. -/
def Expr.eval (store : Store) : Expr → Except RunError Float
  | .constant number => .ok number.toFloat
  | .var name => store.lookup name
  | .binary operator lhs rhs => do
    let left ← lhs.eval store
    let right ← rhs.eval store
    operator.apply left right

/-! ### Evaluation by cases -/

section
variable {store : Store} {operator : Operator} {lhs rhs : Expr} {value : Float} {cause : RunError}

/-- Only a division by zero is refused. -/
theorem Operator.apply_eq_error_iff {left right : Float} : operator.apply left right = .error cause ↔
    operator = .div ∧ (right == 0.0) = true ∧ cause = .divisionByZero := by
  cases operator with
  | div =>
    rw [apply]
    split
    case isTrue zero =>
      exact ⟨fun refused => ⟨rfl, zero, (Except.error.inj refused).symm⟩, fun ⟨_, _, same⟩ => same ▸ rfl⟩
    case isFalse other => exact ⟨by rintro ⟨⟩, fun ⟨_, zero, _⟩ => absurd zero other⟩
  | _ => simp [apply]

/-- An operation has a value if its operands have values that the operator takes. -/
theorem Expr.eval_binary_eq_ok_iff : (Expr.binary operator lhs rhs).eval store = .ok value ↔
    ∃ left right, lhs.eval store = .ok left ∧ rhs.eval store = .ok right ∧
      operator.apply left right = .ok value := by
  rw [eval]
  cases lhs.eval store <;> cases rhs.eval store <;> simp [bind, Except.bind]

/-- An operation fails by its left operand, or else by its right one, or else by its operator. -/
theorem Expr.eval_binary_eq_error_iff : (Expr.binary operator lhs rhs).eval store = .error cause ↔
    lhs.eval store = .error cause ∨ ∃ left, lhs.eval store = .ok left ∧
      (rhs.eval store = .error cause ∨ ∃ right, rhs.eval store = .ok right ∧
        operator.apply left right = .error cause) := by
  rw [eval]
  cases lhs.eval store <;> cases rhs.eval store <;> simp [bind, Except.bind]

end

end LoopLang
