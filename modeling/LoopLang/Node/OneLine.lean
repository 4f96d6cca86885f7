import LoopLang.Node.Basic

/-! A tree on one line: the label, and the children in braces if there are any, each after its role.
The text is built from the front in one pass; `oneLine_eq` states what it is in terms of the
children of a node. -/
namespace LoopLang

/-- Adds a role to the text of the siblings before it. -/
def Role.after (role : Role) (text : String) : String := text ++ role.text ++ ": "

/-- Adds the one-line form of an expression to a text. -/
def Expr.oneLineAfter (text : String) (expr : Expr) : String :=
  match expr with
  | .constant _ | .var _ => text ++ (Node.expr expr).label
  | .binary _ lhs rhs =>
    let text := lhs.oneLineAfter (Role.lhs.after (text ++ (Node.expr expr).label ++ " \x7b "))
    rhs.oneLineAfter (Role.rhs.after (text ++ ", ")) ++ " \x7d"

mutual

/-- Adds the one-line form of a statement to a text. -/
def Stmt.oneLineAfter (text : String) (stmt : Stmt) : String :=
  let text := text ++ (Node.stmt stmt).label
  match stmt with
  | .block [] => text
  | .block (first :: rest) =>
    restOneLineAfter (first.oneLineAfter ((Role.index 0).after (text ++ " \x7b "))) 1 rest ++ " \x7d"
  | .assign _ value => value.oneLineAfter (Role.value.after (text ++ " \x7b ")) ++ " \x7d"
  | .branch _ lhs rhs ifTrue ifFalse =>
    let text := lhs.oneLineAfter (Role.lhs.after (text ++ " \x7b "))
    let text := rhs.oneLineAfter (Role.rhs.after (text ++ ", "))
    let text := ifTrue.oneLineAfter (Role.ifTrue.after (text ++ ", "))
    ifFalse.oneLineAfter (Role.ifFalse.after (text ++ ", ")) ++ " \x7d"
  | .loop body => body.oneLineAfter (Role.body.after (text ++ " \x7b ")) ++ " \x7d"
  | .exit => text
  | .print value => value.oneLineAfter (Role.value.after (text ++ " \x7b ")) ++ " \x7d"

/-- Adds the statements of a block after its first one, each behind a comma. -/
def Stmt.restOneLineAfter (text : String) (position : Nat) (body : List Stmt) : String :=
  match body with
  | [] => text
  | stmt :: rest =>
    restOneLineAfter (stmt.oneLineAfter ((Role.index position).after (text ++ ", "))) (position + 1) rest

end

/-- The tree on one line. -/
def Node.oneLine : Node → String
  | stmt statement => statement.oneLineAfter ""
  | expr expression => expression.oneLineAfter ""

/-! ### The line by children -/

/-- What comes before an expression has no part in its text. -/
private theorem Expr.oneLineAfter_eq (text : String) (expr : Expr) :
    expr.oneLineAfter text = text ++ (Node.expr expr).oneLine := by
  induction expr generalizing text with
  | constant number => simp [Node.oneLine, Expr.oneLineAfter]
  | var name => simp [Node.oneLine, Expr.oneLineAfter]
  | binary operator lhs rhs left right =>
    simp only [Node.oneLine, Expr.oneLineAfter]
    rw [right, left, right (Role.after _ _), left (Role.after _ _)]
    simp [Role.after, String.append_assoc]

mutual

/-- What comes before a statement has no part in its text. -/
private theorem Stmt.oneLineAfter_eq (text : String) (stmt : Stmt) :
    stmt.oneLineAfter text = text ++ (Node.stmt stmt).oneLine := by
  cases stmt with
  | block body =>
    cases body with
    | nil => simp [Node.oneLine, Stmt.oneLineAfter]
    | cons first rest =>
      simp only [Node.oneLine, Stmt.oneLineAfter]
      rw [Stmt.restOneLineAfter_eq, Stmt.oneLineAfter_eq _ first,
        Stmt.restOneLineAfter_eq (Stmt.oneLineAfter _ _), Stmt.oneLineAfter_eq (Role.after _ _) first]
      simp [Role.after, String.append_assoc]
  | assign name value =>
    simp only [Node.oneLine, Stmt.oneLineAfter]
    rw [Expr.oneLineAfter_eq, Expr.oneLineAfter_eq (Role.after _ _)]
    simp [Role.after, String.append_assoc]
  | branch comparison lhs rhs ifTrue ifFalse =>
    simp only [Node.oneLine, Stmt.oneLineAfter]
    rw [Stmt.oneLineAfter_eq _ ifFalse, Stmt.oneLineAfter_eq _ ifTrue,
      Expr.oneLineAfter_eq _ rhs, Expr.oneLineAfter_eq _ lhs,
      Stmt.oneLineAfter_eq (Role.after _ _) ifFalse, Stmt.oneLineAfter_eq (Role.after _ _) ifTrue,
      Expr.oneLineAfter_eq (Role.after _ _) rhs, Expr.oneLineAfter_eq (Role.after _ _) lhs]
    simp [Role.after, String.append_assoc]
  | loop body =>
    simp only [Node.oneLine, Stmt.oneLineAfter]
    rw [Stmt.oneLineAfter_eq _ body, Stmt.oneLineAfter_eq (Role.after _ _) body]
    simp [Role.after, String.append_assoc]
  | exit => simp [Node.oneLine, Stmt.oneLineAfter]
  | print value =>
    simp only [Node.oneLine, Stmt.oneLineAfter]
    rw [Expr.oneLineAfter_eq, Expr.oneLineAfter_eq (Role.after _ _)]
    simp [Role.after, String.append_assoc]

/-- What comes before the later statements of a block has no part in their text. -/
private theorem Stmt.restOneLineAfter_eq (text : String) (position : Nat) (body : List Stmt) :
    Stmt.restOneLineAfter text position body = text ++ Stmt.restOneLineAfter "" position body := by
  cases body with
  | nil => simp [Stmt.restOneLineAfter]
  | cons stmt rest =>
    simp only [Stmt.restOneLineAfter]
    rw [Stmt.restOneLineAfter_eq _ _ rest, Stmt.oneLineAfter_eq _ stmt,
      Stmt.restOneLineAfter_eq (Stmt.oneLineAfter _ _) _ rest, Stmt.oneLineAfter_eq (Role.after _ _) stmt]
    simp [Role.after, String.append_assoc]

end

/-- A child on one line: its role and its own line. -/
def Node.childLine (child : Role × Node) : String := child.1.text ++ ": " ++ child.2.oneLine

/-- The statements of a block stand in order with commas between them. -/
private theorem Stmt.body_oneLine_eq (first : Stmt) (position : Nat) (rest : List Stmt) :
    Node.childLine (.index position, .stmt first) ++ Stmt.restOneLineAfter "" (position + 1) rest =
      ", ".intercalate ((first :: rest).mapIdx fun offset stmt =>
        Node.childLine (.index (position + offset), .stmt stmt)) := by
  induction rest generalizing first position with
  | nil => simp [Stmt.restOneLineAfter]
  | cons next rest inside =>
    rw [Stmt.restOneLineAfter, Stmt.restOneLineAfter_eq, Stmt.oneLineAfter_eq]
    have later := inside next (position + 1)
    simp only [Node.childLine, List.mapIdx_cons, String.intercalate_cons_cons, Nat.add_assoc,
      Nat.add_comm 1] at later ⊢
    rw [← later]
    simp [Role.after, String.append_assoc]

/-- A node without children is its label. Any other one has its children behind the label, in braces
and with commas between them. -/
theorem Node.oneLine_eq (root : Node) :
    root.oneLine = root.label ++
      if root.children.isEmpty then ""
      else " \x7b " ++ ", ".intercalate (root.children.map childLine) ++ " \x7d" := by
  cases root with
  | stmt statement =>
    cases statement with
    | block body =>
      cases body with
      | nil => simp [oneLine, Stmt.oneLineAfter, children]
      | cons first rest =>
        have listed : (stmt (.block (first :: rest))).children.map childLine =
            (first :: rest).mapIdx fun offset stmt => childLine (.index (0 + offset), .stmt stmt) := by
          simp [children, List.mapIdx_eq_zipIdx_map, Function.comp_def]
        rw [listed, ← Stmt.body_oneLine_eq, oneLine, Stmt.oneLineAfter, Stmt.restOneLineAfter_eq,
          Stmt.oneLineAfter_eq]
        simp [children, childLine, Role.after, String.append_assoc]
    | branch comparison lhs rhs ifTrue ifFalse =>
      simp only [oneLine, Stmt.oneLineAfter, children]
      rw [Stmt.oneLineAfter_eq _ ifFalse, Stmt.oneLineAfter_eq _ ifTrue,
        Expr.oneLineAfter_eq _ rhs, Expr.oneLineAfter_eq _ lhs]
      simp [childLine, Role.after, String.append_assoc]
    | loop body =>
      simp only [oneLine, Stmt.oneLineAfter, children]
      rw [Stmt.oneLineAfter_eq _ body]
      simp [childLine, Role.after, String.append_assoc]
    | exit => simp [oneLine, Stmt.oneLineAfter, children]
    | _ =>
      simp only [oneLine, Stmt.oneLineAfter, children]
      rw [Expr.oneLineAfter_eq]
      simp [childLine, Role.after, String.append_assoc]
  | expr expression =>
    cases expression with
    | binary operator lhs rhs =>
      simp only [oneLine, Expr.oneLineAfter, children]
      rw [Expr.oneLineAfter_eq _ rhs, Expr.oneLineAfter_eq _ lhs]
      simp [childLine, Role.after, String.append_assoc]
    | _ => simp [oneLine, Expr.oneLineAfter, children]

end LoopLang
