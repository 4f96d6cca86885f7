import LoopLang.Java.Stmt

/-! Java statements as lines. A line has a depth and a text, and its indentation comes from the depth
alone. A block has its braces at its own depth and its statements one deeper. A statement under a
header stands one deeper than the header, except that a block keeps the header's depth. The lines
are built from the front in one pass; the equations at the end state them part by part. -/
namespace LoopLang.Java

/-- A line of a program. -/
structure Line where
  /-- How many indentations it stands in from the margin. -/
  depth : Nat
  text : String
deriving DecidableEq, Repr

/-- The header of a conditional. -/
def ifHeader (comparison : Comparison) (lhs rhs : Expr) : String :=
  rhs.javaAfter (lhs.javaAfter "if (" ++ " " ++ comparison.symbol ++ " ") ++ ")"

/-- The header of an endless loop. -/
def loopHeader : String := "while (true)"

/-- The depth of a statement under a header of the given depth. -/
def Stmt.depthUnder (stmt : Stmt) (depth : Nat) : Nat :=
  match stmt with
  | block _ => depth
  | _ => depth + 1

mutual

/-- Adds the lines of a statement at a depth to the lines before it. -/
def Stmt.linesAfter (depth : Nat) (before : Array Line) : Stmt → Array Line
  | .block body =>
    (bodyLinesAfter (depth + 1) (before.push ⟨depth, "\x7b"⟩) body).push ⟨depth, "\x7d"⟩
  | .assign name value => before.push ⟨depth, value.javaAfter (name ++ " = ") ++ ";"⟩
  | .ifThen comparison lhs rhs ifTrue =>
    ifTrue.linesAfter (ifTrue.depthUnder depth) (before.push ⟨depth, ifHeader comparison lhs rhs⟩)
  | .ifElse comparison lhs rhs ifTrue ifFalse =>
    let before := (before.push ⟨depth, ifHeader comparison lhs rhs⟩).push ⟨depth, "\x7b"⟩
    let before := (bodyLinesAfter (depth + 1) before ifTrue).push ⟨depth, "\x7d"⟩
    ifFalse.linesAfter (ifFalse.depthUnder depth) (before.push ⟨depth, "else"⟩)
  | .whileTrue body => body.linesAfter (body.depthUnder depth) (before.push ⟨depth, loopHeader⟩)
  | .leave => before.push ⟨depth, "break;"⟩
  | .println value => before.push ⟨depth, value.javaAfter "System.out.println(" ++ ");"⟩

/-- Adds the lines of statements in sequence. -/
def bodyLinesAfter (depth : Nat) (before : Array Line) : List Stmt → Array Line
  | [] => before
  | stmt :: rest => bodyLinesAfter depth (stmt.linesAfter depth before) rest

end

/-- The lines of a statement at a depth. -/
def Stmt.lines (depth : Nat) (stmt : Stmt) : List Line := (stmt.linesAfter depth #[]).toList

/-- The lines of statements in sequence at a depth. -/
def bodyLines (depth : Nat) (body : List Stmt) : List Line := (bodyLinesAfter depth #[] body).toList

/-! ### Lines by parts -/

mutual

/-- What comes before a statement has no part in its lines. -/
private theorem Stmt.linesAfter_eq (depth : Nat) (before : Array Line) (stmt : Stmt) :
    stmt.linesAfter depth before = before ++ stmt.linesAfter depth #[] := by
  cases stmt with
  | block body =>
    simp only [Stmt.linesAfter]
    rw [bodyLinesAfter_eq, bodyLinesAfter_eq _ (Array.push #[] _)]
    simp
  | ifThen comparison lhs rhs ifTrue =>
    simp only [Stmt.linesAfter]
    rw [Stmt.linesAfter_eq _ _ ifTrue, Stmt.linesAfter_eq _ (Array.push #[] _) ifTrue]
    simp
  | ifElse comparison lhs rhs ifTrue ifFalse =>
    simp only [Stmt.linesAfter]
    rw [Stmt.linesAfter_eq _ _ ifFalse, bodyLinesAfter_eq,
      Stmt.linesAfter_eq _ (Array.push (Array.push _ _) _) ifFalse,
      bodyLinesAfter_eq _ (Array.push (Array.push #[] _) _)]
    apply Array.toList_inj.mp
    simp
  | whileTrue body =>
    simp only [Stmt.linesAfter]
    rw [Stmt.linesAfter_eq _ _ body, Stmt.linesAfter_eq _ (Array.push #[] _) body]
    simp
  | _ => simp [Stmt.linesAfter]

/-- What comes before a sequence has no part in its lines. -/
private theorem bodyLinesAfter_eq (depth : Nat) (before : Array Line) (body : List Stmt) :
    bodyLinesAfter depth before body = before ++ bodyLinesAfter depth #[] body := by
  cases body with
  | nil => simp [bodyLinesAfter]
  | cons stmt rest =>
    simp only [bodyLinesAfter]
    rw [bodyLinesAfter_eq _ _ rest, Stmt.linesAfter_eq _ _ stmt,
      bodyLinesAfter_eq _ (Stmt.linesAfter _ _ _) rest]
    simp

end

@[simp] theorem bodyLines_nil (depth : Nat) : bodyLines depth [] = [] := by
  simp [bodyLines, bodyLinesAfter]

/-- The lines of a sequence are the lines of its statements in order. -/
@[simp] theorem bodyLines_cons (depth : Nat) (stmt : Stmt) (rest : List Stmt) :
    bodyLines depth (stmt :: rest) = stmt.lines depth ++ bodyLines depth rest := by
  rw [bodyLines, bodyLinesAfter, bodyLinesAfter_eq, Array.toList_append]
  rfl

theorem Stmt.lines_block (depth : Nat) (body : List Stmt) :
    (Stmt.block body).lines depth =
      ⟨depth, "\x7b"⟩ :: bodyLines (depth + 1) body ++ [⟨depth, "\x7d"⟩] := by
  rw [Stmt.lines, Stmt.linesAfter, bodyLinesAfter_eq]
  simp [bodyLines]

theorem Stmt.lines_assign (depth : Nat) (name : String) (value : Expr) :
    (Stmt.assign name value).lines depth = [⟨depth, name ++ " = " ++ value.javaText ++ ";"⟩] := by
  rw [Stmt.lines, Stmt.linesAfter, Expr.javaAfter_eq]
  simp [String.append_assoc]

theorem Stmt.lines_ifThen (depth : Nat) (comparison : Comparison) (lhs rhs : Expr) (ifTrue : Stmt) :
    (Stmt.ifThen comparison lhs rhs ifTrue).lines depth =
      ⟨depth, ifHeader comparison lhs rhs⟩ :: ifTrue.lines (ifTrue.depthUnder depth) := by
  rw [Stmt.lines, Stmt.linesAfter, Stmt.linesAfter_eq]
  simp [Stmt.lines]

theorem Stmt.lines_ifElse (depth : Nat) (comparison : Comparison) (lhs rhs : Expr)
    (ifTrue : List Stmt) (ifFalse : Stmt) :
    (Stmt.ifElse comparison lhs rhs ifTrue ifFalse).lines depth =
      ⟨depth, ifHeader comparison lhs rhs⟩ :: ⟨depth, "\x7b"⟩ ::
        bodyLines (depth + 1) ifTrue ++ ⟨depth, "\x7d"⟩ ::
        ⟨depth, "else"⟩ :: ifFalse.lines (ifFalse.depthUnder depth) := by
  rw [Stmt.lines, Stmt.linesAfter, Stmt.linesAfter_eq, bodyLinesAfter_eq]
  simp [Stmt.lines, bodyLines]

theorem Stmt.lines_whileTrue (depth : Nat) (body : Stmt) :
    (Stmt.whileTrue body).lines depth =
      ⟨depth, loopHeader⟩ :: body.lines (body.depthUnder depth) := by
  rw [Stmt.lines, Stmt.linesAfter, Stmt.linesAfter_eq]
  simp [Stmt.lines]

theorem Stmt.lines_leave (depth : Nat) : Stmt.leave.lines depth = [⟨depth, "break;"⟩] := by
  simp [Stmt.lines, Stmt.linesAfter]

theorem Stmt.lines_println (depth : Nat) (value : Expr) :
    (Stmt.println value).lines depth =
      [⟨depth, "System.out.println(" ++ value.javaText ++ ");"⟩] := by
  rw [Stmt.lines, Stmt.linesAfter, Expr.javaAfter_eq]
  simp [String.append_assoc]

/-- The header of a conditional holds both operands around the sign of the comparison. -/
theorem ifHeader_eq (comparison : Comparison) (lhs rhs : Expr) :
    ifHeader comparison lhs rhs =
      "if (" ++ lhs.javaText ++ " " ++ comparison.symbol ++ " " ++ rhs.javaText ++ ")" := by
  rw [ifHeader, Expr.javaAfter_eq, Expr.javaAfter_eq]

end LoopLang.Java
