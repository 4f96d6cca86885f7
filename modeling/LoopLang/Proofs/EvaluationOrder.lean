import LoopLang.Proofs.Doubles
import LoopLang.Expr.Eval

/-! The order of evaluation. Evaluation goes over the nodes of an expression from left to right, operands before
their operator. As long as no node fails, every node takes the values of its operands from a stack and leaves its
own value there. The first node that fails decides the error, whatever the nodes behind it would have done. -/
namespace LoopLang

/-- Arithmetic in which a zero divisor is as good as any other. -/
def Operator.javaApply : Operator → Float → Float → Float
  | add, left, right => left + right
  | sub, left, right => left - right
  | mul, left, right => left * right
  | div, left, right => left / right
  | pow, left, right => left ^ right

/-- What is not refused is computed like this. -/
theorem Operator.javaApply_eq {operator : Operator} {left right value : Float}
    (applied : operator.apply left right = .ok value) : operator.javaApply left right = value := by
  cases operator with
  | div =>
    rw [apply] at applied
    split at applied
    · cases applied
    · exact Except.ok.inj applied
  | _ => exact Except.ok.inj applied

namespace Expr
variable {store : Store} {expr node : Expr} {nodes more : List Expr} {cause : RunError}

/-- The nodes of an expression, each behind its operands and the left operand before the right one. -/
def postorder : Expr → List Expr
  | .binary operator lhs rhs => lhs.postorder ++ rhs.postorder ++ [.binary operator lhs rhs]
  | .constant number => [.constant number]
  | .var name => [.var name]

/-- What a node by itself does to a stack of values, on top of which it finds the value of its right operand and
below that the value of its left one. Nothing is refused here: a division by zero has the quotient that doubles have. -/
def push (store : Store) (values : List Float) : Expr → Option (List Float)
  | .constant number => some (number.toFloat :: values)
  | .var name => (store.get? name).map (· :: values)
  | .binary operator _ _ =>
    match values with
    | right :: left :: values => some (operator.javaApply left right :: values)
    | _ => none

/-- A node fails with this error: a variable that is not bound, or a division whose right operand is a zero of
either sign, whatever its left operand is. -/
inductive FailsWith (store : Store) : Expr → RunError → Prop where
  | unbound (missing : store.get? name = none) : FailsWith store (.var name) (.undefinedVariable name)
  | zeroDivisor (evaluates : rhs.eval store = .ok divisor) (zero : Double.IsZero divisor) :
      FailsWith store (.binary .div lhs rhs) .divisionByZero

/-- A node fails. -/
def Fails (store : Store) (node : Expr) : Prop := ∃ cause, node.FailsWith store cause

/-- The first node that fails does so with this error. -/
def FirstFailsWith (store : Store) (nodes : List Expr) (cause : RunError) : Prop :=
  ∃ before node after, nodes = before ++ node :: after ∧
    (∀ earlier ∈ before, ¬ earlier.Fails store) ∧ node.FailsWith store cause

/-! ### First failures -/

private theorem failsWith_var {name : String} : (var name).FailsWith store cause ↔
    store.get? name = none ∧ cause = .undefinedVariable name := by
  constructor
  · rintro ⟨missing⟩
    exact ⟨missing, rfl⟩
  · rintro ⟨missing, rfl⟩
    exact .unbound missing

private theorem failsWith_binary {operator : Operator} {lhs rhs : Expr} :
    (binary operator lhs rhs).FailsWith store cause ↔
      operator = .div ∧ (∃ divisor, rhs.eval store = .ok divisor ∧ Double.IsZero divisor) ∧
        cause = .divisionByZero := by
  constructor
  · rintro ⟨⟩
    exact ⟨rfl, ⟨_, ‹_›, ‹_›⟩, rfl⟩
  · rintro ⟨rfl, ⟨divisor, evaluates, zero⟩, rfl⟩
    exact .zeroDivisor evaluates zero

private theorem firstFailsWith_singleton :
    FirstFailsWith store [node] cause ↔ node.FailsWith store cause := by
  constructor
  · rintro ⟨before, first, after, split, -, fails⟩
    have ends : before = [] ∧ first :: after = [node] := by
      simpa using List.append_eq_singleton_iff.mp split.symm
    obtain ⟨rfl, -⟩ := List.cons.inj ends.2
    exact fails
  · exact fun fails => ⟨[], node, [], rfl, by simp, fails⟩

/-- The first failure in two rows of nodes is in the first row, or in the second one if no node of the first fails. -/
private theorem firstFailsWith_append : FirstFailsWith store (nodes ++ more) cause ↔
    FirstFailsWith store nodes cause ∨
      (∀ node ∈ nodes, ¬ node.Fails store) ∧ FirstFailsWith store more cause := by
  constructor
  · rintro ⟨before, node, after, split, pass, fails⟩
    rcases List.append_eq_append_iff.mp split with ⟨inside, rfl, later⟩ | ⟨inside, rfl, later⟩
    · exact .inr ⟨fun node held => pass node (List.mem_append_left _ held), inside, node, after, later,
        fun node held => pass node (List.mem_append_right _ held), fails⟩
    · cases inside with
      | nil => exact .inr ⟨by simpa using pass, [], node, after, later.symm, by simp, fails⟩
      | cons first inside =>
        obtain ⟨rfl, -⟩ := List.cons.inj later
        exact .inl ⟨before, node, inside, rfl, pass, fails⟩
  · rintro (⟨before, node, after, rfl, pass, fails⟩ | ⟨none, before, node, after, rfl, pass, fails⟩)
    · exact ⟨before, node, after ++ more, by simp, pass, fails⟩
    · refine ⟨nodes ++ before, node, after, by simp, fun earlier held => ?_, fails⟩
      exact (List.mem_append.mp held).elim (none earlier) (pass earlier)

/-- If any node fails, then one of them is the first. -/
private theorem none_fails_iff :
    (∀ node ∈ nodes, ¬ node.Fails store) ↔ ∀ cause, ¬ FirstFailsWith store nodes cause := by
  constructor
  · rintro none cause ⟨before, node, after, rfl, -, fails⟩
    exact none node (by simp) ⟨cause, fails⟩
  · intro none
    induction nodes with
    | nil => simp
    | cons first nodes ih =>
      have here : ¬ first.Fails store := fun ⟨cause, fails⟩ => none cause ⟨[], first, nodes, rfl, by simp, fails⟩
      have later : ∀ node ∈ nodes, ¬ node.Fails store := by
        refine ih fun cause found => none cause ?_
        rw [← List.singleton_append, firstFailsWith_append]
        exact .inr ⟨by simpa using here, found⟩
      simpa using ⟨here, later⟩

/-! ### Evaluation -/

/-- An expression has a value or an error. -/
theorem evaluates_iff : (∃ value, expr.eval store = .ok value) ↔ ∀ cause, expr.eval store ≠ .error cause := by
  cases expr.eval store <;> simp

/-- The error of an expression is that of its first failing node. -/
theorem eval_eq_error_iff_firstFailsWith :
    expr.eval store = .error cause ↔ FirstFailsWith store expr.postorder cause := by
  induction expr generalizing cause with
  | constant number =>
    rw [postorder, firstFailsWith_singleton]
    exact ⟨by rintro ⟨⟩, by rintro ⟨⟩⟩
  | var name =>
    rw [postorder, firstFailsWith_singleton, failsWith_var, eval, Store.lookup_eq_error_iff]
  | binary operator lhs rhs left right =>
    have passes (operand : Expr)
        (errors : ∀ {cause}, operand.eval store = .error cause ↔ FirstFailsWith store operand.postorder cause) :
        (∀ node ∈ operand.postorder, ¬ node.Fails store) ↔ ∃ value, operand.eval store = .ok value := by
      rw [none_fails_iff, evaluates_iff]
      exact forall_congr' fun cause => not_congr errors.symm
    rw [eval_binary_eq_error_iff, postorder, firstFailsWith_append, firstFailsWith_append,
      firstFailsWith_singleton, failsWith_binary, List.forall_mem_append, passes lhs left, passes rhs right,
      ← left, ← right]
    simp only [Operator.apply_eq_error_iff, Double.beq_zero_iff]
    grind

/-- The nodes of an expression that has a value leave this value on the stack. -/
theorem push_postorder {value : Float} (evaluates : expr.eval store = .ok value) (values : List Float) :
    expr.postorder.foldlM (push store) values = some (value :: values) := by
  induction expr generalizing value values with
  | constant number =>
    cases evaluates
    rfl
  | var name =>
    have bound : store.get? name = some value := Store.lookup_eq_ok_iff.mp evaluates
    simp [postorder, push, bound]
  | binary operator lhs rhs left right =>
    obtain ⟨first, second, evaluatesLeft, evaluatesRight, applied⟩ := eval_binary_eq_ok_iff.mp evaluates
    have quotient := Operator.javaApply_eq applied
    simp [postorder, List.foldlM_append, left evaluatesLeft, right evaluatesRight, push, quotient]

/-- An expression has a value exactly if none of its nodes fails, and the value is then what the nodes leave on a
stack of values, one after the other. It has an error exactly if some node fails, and the error is then that of the
first node that does. -/
theorem evaluation_stops_at_first_failing_node (store : Store) (expr : Expr) :
    ((∃ value, expr.eval store = .ok value) ↔ ∀ node ∈ expr.postorder, ¬ node.Fails store) ∧
    (∀ value, expr.eval store = .ok value ↔
      (∀ node ∈ expr.postorder, ¬ node.Fails store) ∧ expr.postorder.foldlM (push store) [] = some [value]) ∧
    ∀ cause, expr.eval store = .error cause ↔
      ∃ before node after, expr.postorder = before ++ node :: after ∧
        (∀ earlier ∈ before, ¬ earlier.Fails store) ∧ node.FailsWith store cause := by
  have passes : (∃ value, expr.eval store = .ok value) ↔ ∀ node ∈ expr.postorder, ¬ node.Fails store := by
    rw [evaluates_iff, none_fails_iff]
    exact forall_congr' fun cause => not_congr eval_eq_error_iff_firstFailsWith
  refine ⟨passes, fun value => ?_, fun cause => eval_eq_error_iff_firstFailsWith⟩
  constructor
  · intro evaluates
    exact ⟨passes.mp ⟨value, evaluates⟩, push_postorder evaluates []⟩
  · rintro ⟨pass, left⟩
    obtain ⟨result, evaluates⟩ := passes.mpr pass
    have same := (push_postorder evaluates []).symm.trans left
    simp only [Option.some.injEq, List.cons.injEq, and_true] at same
    rw [evaluates, same]

/-- A NaN over a negative zero fails before the unbound variable behind it is read. -/
example :
    (binary .add (binary .div (constant ⟨0x7FF8000000000000⟩) (constant ⟨0x8000000000000000⟩)) (var "x")).eval ∅ =
      .error .divisionByZero := by rfl

end Expr
end LoopLang
