import LoopLang.Proofs.Mentions
import LoopLang.Proofs.NumberText

/-! Depths move the lines of a statement sideways and do nothing else. A statement has one list of lines; written
at a depth, every line of it stands that much farther in, and the layout only says how wide one step is. Inside
this list a block under a header keeps the depth of the header, everything else under it stands deeper, and every
opening brace is closed at its own depth. -/
namespace LoopLang

/-! ### Moving lines -/

namespace Java
variable {lines more rest : List Line} {depth : Nat}

/-- A line that stands so much farther in. -/
def Line.moved (step : Nat) (line : Line) : Line := ⟨step + line.depth, line.text⟩

theorem Stmt.depthUnder_moved (step depth : Nat) (stmt : Stmt) :
    stmt.depthUnder (step + depth) = step + stmt.depthUnder depth := by
  cases stmt <;> rfl

mutual

/-- A statement at a greater depth has the same lines, farther in. -/
theorem Stmt.lines_moved (step depth : Nat) (stmt : Stmt) :
    stmt.lines (step + depth) = (stmt.lines depth).map (·.moved step) := by
  cases stmt with
  | block body => simp [Stmt.lines_block, Nat.add_assoc, bodyLines_moved step (depth + 1) body, Line.moved]
  | assign name value => simp [Stmt.lines_assign, Line.moved]
  | ifThen comparison lhs rhs ifTrue =>
    rw [Stmt.lines_ifThen, Stmt.depthUnder_moved, Stmt.lines_moved step _ ifTrue, Stmt.lines_ifThen]
    simp [Line.moved]
  | ifElse comparison lhs rhs ifTrue ifFalse =>
    rw [Stmt.lines_ifElse, Stmt.depthUnder_moved, Stmt.lines_moved step _ ifFalse, Nat.add_assoc,
      bodyLines_moved step _ ifTrue, Stmt.lines_ifElse]
    simp [Line.moved]
  | whileTrue body =>
    rw [Stmt.lines_whileTrue, Stmt.depthUnder_moved, Stmt.lines_moved step _ body, Stmt.lines_whileTrue]
    simp [Line.moved]
  | leave => simp [Stmt.lines_leave, Line.moved]
  | println value => simp [Stmt.lines_println, Line.moved]

theorem bodyLines_moved (step depth : Nat) (body : List Stmt) :
    bodyLines (step + depth) body = (bodyLines depth body).map (·.moved step) := by
  cases body with
  | nil => simp
  | cons stmt rest =>
    rw [bodyLines_cons, Stmt.lines_moved step depth stmt, bodyLines_moved step depth rest, bodyLines_cons,
      List.map_append]

end

/-- No line of a sequence stands farther out than the sequence. -/
private theorem bodyLines_depth_le (depth : Nat) (body : List Stmt) :
    ∀ line ∈ bodyLines depth body, depth ≤ line.depth := by
  intro line held
  rw [← Nat.add_zero depth, bodyLines_moved] at held
  obtain ⟨own, -, rfl⟩ := List.mem_map.mp held
  exact Nat.le_add_right _ _

/-! ### Braces -/

/-- Every line that opens a brace is followed by one that closes it at the same depth, and everything between
them is deeper. -/
def Matched (lines : List Line) : Prop :=
  ∀ before after depth, lines = before ++ ⟨depth, "\x7b"⟩ :: after →
    ∃ inside rest, after = inside ++ ⟨depth, "\x7d"⟩ :: rest ∧ ∀ line ∈ inside, depth < line.depth

theorem Matched.nil : Matched [] := fun _ _ _ split => absurd split (by simp)

/-- Lines that close their own braces can stand one behind the other: a brace is closed where it is opened. -/
theorem Matched.append (matched : Matched lines) (matched' : Matched more) : Matched (lines ++ more) := by
  intro before after depth split
  rcases List.append_eq_append_iff.mp split with ⟨between, rfl, same⟩ | ⟨opened, same, split'⟩
  · exact matched' between after depth same
  · cases opened with
    | nil =>
      exact matched' [] after depth split'.symm
    | cons brace inside =>
      obtain ⟨rfl, rfl⟩ := List.cons.inj split'
      obtain ⟨inside', rest, rfl, deeper⟩ := matched before inside depth same
      exact ⟨inside', rest ++ more, by simp, deeper⟩

/-- A line that opens nothing needs nothing behind it. -/
theorem Matched.cons {text : String} (other : text ≠ "\x7b") (matched : Matched lines) :
    Matched (⟨depth, text⟩ :: lines) := by
  intro before after opened split
  cases before with
  | nil => exact absurd (congrArg Line.text (List.cons.inj split).1) other
  | cons first before => exact matched before after opened (List.cons.inj split).2

theorem Matched.single {text : String} (other : text ≠ "\x7b") : Matched [⟨depth, text⟩] := .cons other .nil

/-- Braces around deeper lines close each other. -/
theorem Matched.braces (matched : Matched lines) (deeper : ∀ line ∈ lines, depth < line.depth) :
    Matched (⟨depth, "\x7b"⟩ :: lines ++ [⟨depth, "\x7d"⟩]) := by
  intro before after opened split
  cases before with
  | nil =>
    obtain ⟨same, rfl⟩ := List.cons.inj split
    obtain rfl : depth = opened := congrArg Line.depth same
    exact ⟨lines, [], rfl, deeper⟩
  | cons first before =>
    exact (matched.append (.single (by decide))) before after opened (List.cons.inj split).2

/-- A text with something else at its end is no opening brace. -/
private theorem ne_brace {text ending : String} {last : Char}
    (ends : ending.toList.getLast? = some last)
    (other : last ≠ '\x7b') : text ++ ending ≠ "\x7b" := by
  intro same
  have whole := congrArg (·.toList.getLast?) same
  simp [List.getLast?_append, ends, other] at whole

mutual

/-- A statement closes all braces that it opens. -/
theorem Stmt.matched (depth : Nat) (stmt : Stmt) : Matched (stmt.lines depth) := by
  cases stmt with
  | block body =>
    rw [Stmt.lines_block]
    exact (bodyMatched (depth + 1) body).braces fun line held => bodyLines_depth_le _ body line held
  | assign name value =>
    rw [Stmt.lines_assign]
    exact .single (ne_brace rfl (by decide))
  | ifThen comparison lhs rhs ifTrue =>
    rw [Stmt.lines_ifThen]
    exact .cons (ne_brace rfl (by decide)) (Stmt.matched _ ifTrue)
  | ifElse comparison lhs rhs ifTrue ifFalse =>
    rw [Stmt.lines_ifElse]
    have first := (bodyMatched (depth + 1) ifTrue).braces fun line held => bodyLines_depth_le _ ifTrue line held
    have second : Matched (⟨depth, "else"⟩ :: ifFalse.lines (ifFalse.depthUnder depth)) :=
      .cons (by decide) (Stmt.matched _ ifFalse)
    have both := first.append second
    rw [List.append_assoc] at both
    exact .cons (ne_brace rfl (by decide)) both
  | whileTrue body =>
    rw [Stmt.lines_whileTrue]
    exact .cons (by decide) (Stmt.matched _ body)
  | leave =>
    rw [Stmt.lines_leave]
    exact .single (by decide)
  | println value =>
    rw [Stmt.lines_println]
    exact .single (ne_brace rfl (by decide))

theorem bodyMatched (depth : Nat) (body : List Stmt) : Matched (bodyLines depth body) := by
  cases body with
  | nil =>
    rw [bodyLines_nil]
    exact .nil
  | cons stmt rest =>
    rw [bodyLines_cons]
    exact (Stmt.matched depth stmt).append (bodyMatched depth rest)

end

end Java

/-! ### Lines without newlines -/

/-- The literal of a number has no newline. -/
private theorem Java.literal_free (number : Number) : '\n' ∉ (Java.literal number).toList := by
  have other : ∀ c ∈ (Java.literal number).toList, c ≠ '\n' := by
    refine Number.write_characters ?_ (by simp [Java.numberStyle]) (by simp [Java.numberStyle])
    rintro c figure rfl
    cases figure
  exact fun held => other _ held rfl

/-- The text of an expression has one only in a name. -/
private theorem Expr.javaText_free (expr : Expr)
    (names : ∀ name, expr.Mentions name → '\n' ∉ name.toList) :
    '\n' ∉ expr.javaText.toList := by
  induction expr with
  | constant number =>
    rw [Expr.javaText_constant]
    exact Java.literal_free number
  | var name =>
    rw [Expr.javaText_var]
    exact names name rfl
  | binary operator lhs rhs left right =>
    have left := left fun name mentions => names name (.inl mentions)
    have right := right fun name mentions => names name (.inr mentions)
    have symbol : '\n' ∉ operator.symbol.toList := by cases operator <;> decide
    by_cases power : operator = .pow
    · rw [power, Expr.javaText_pow]
      simp [left, right]
    · rw [Expr.javaText_binary _ _ _ power]
      simp [left, symbol, right]

namespace Java
variable {comparison : Comparison} {lhs rhs : Expr}

private theorem ifHeader_free (left : ∀ name, lhs.Mentions name → '\n' ∉ name.toList)
    (right : ∀ name, rhs.Mentions name → '\n' ∉ name.toList) : '\n' ∉ (ifHeader comparison lhs rhs).toList := by
  have symbol : '\n' ∉ comparison.symbol.toList := by cases comparison <;> decide
  rw [ifHeader_eq]
  simp [lhs.javaText_free left, symbol, rhs.javaText_free right]

mutual

/-- The lines of a statement have one only in a name. -/
theorem Stmt.lines_free (depth : Nat) (stmt : Stmt) (names : ∀ name, stmt.Mentions name → '\n' ∉ name.toList) :
    ∀ line ∈ stmt.lines depth, '\n' ∉ line.text.toList := by
  cases stmt with
  | block body =>
    have inside := bodyLines_free (depth + 1) body names
    simpa [Stmt.lines_block, or_imp, forall_and] using inside
  | assign target value =>
    have own := names target (.inl rfl)
    have free := value.javaText_free fun name mentions => names name (.inr mentions)
    simp [Stmt.lines_assign, own, free]
  | ifThen comparison lhs rhs ifTrue =>
    have inside := Stmt.lines_free (ifTrue.depthUnder depth) ifTrue fun name mentions =>
      names name (.inr (.inr mentions))
    have header : '\n' ∉ (ifHeader comparison lhs rhs).toList :=
      ifHeader_free (fun name mentions => names name (.inl mentions))
        fun name mentions => names name (.inr (.inl mentions))
    simpa [Stmt.lines_ifThen, header] using inside
  | ifElse comparison lhs rhs ifTrue ifFalse =>
    have inside := bodyLines_free (depth + 1) ifTrue fun name mentions =>
      names name (.inr (.inr (.inl mentions)))
    have inside' := Stmt.lines_free (ifFalse.depthUnder depth) ifFalse fun name mentions =>
      names name (.inr (.inr (.inr mentions)))
    have header : '\n' ∉ (ifHeader comparison lhs rhs).toList :=
      ifHeader_free (fun name mentions => names name (.inl mentions))
        fun name mentions => names name (.inr (.inl mentions))
    simpa [Stmt.lines_ifElse, header, or_imp, forall_and] using ⟨inside, inside'⟩
  | whileTrue body =>
    have inside := Stmt.lines_free (body.depthUnder depth) body names
    simpa [Stmt.lines_whileTrue, loopHeader] using inside
  | leave => simp [Stmt.lines_leave]
  | println value =>
    have free := value.javaText_free names
    simp [Stmt.lines_println, free]

theorem bodyLines_free (depth : Nat) (body : List Stmt)
    (names : ∀ name, BodyMentions name body → '\n' ∉ name.toList) :
    ∀ line ∈ bodyLines depth body, '\n' ∉ line.text.toList := by
  cases body with
  | nil => simp
  | cons stmt rest =>
    have first := Stmt.lines_free depth stmt fun name mentions => names name (.inl mentions)
    have later := bodyLines_free depth rest fun name mentions => names name (.inr mentions)
    simpa [or_imp, forall_and] using ⟨first, later⟩

end

/-! ### Writing lines -/

/-- A line that stands farther in than its own depth, with its blanks and its end. -/
def Line.written (indentSize depth : Nat) (line : Line) : String :=
  String.ofList (List.replicate ((depth + line.depth) * indentSize) ' ') ++ line.text ++ "\n"

/-- Lines come behind what a writer holds, each with the blanks of its depth, as long as these can be counted. -/
private theorem text_foldl_line (layout : Layout) (writer : Writer) {lines : List Line}
    {depth : Nat} (counted : ∀ line ∈ lines, (depth + line.depth) * layout.indentSize < 2 ^ 64) :
    ((lines.map (·.moved depth)).foldl (Writer.line layout) writer).text =
      writer.text ++ String.join (lines.map (·.written layout.indentSize depth)) := by
  induction lines generalizing writer with
  | nil => simp
  | cons line rest ih =>
    have own : layout.indent (depth + line.depth) = (depth + line.depth) * layout.indentSize :=
      min_eq_left (Nat.le_pred_of_lt (counted line (.head _)))
    have first : layout.lineText (line.moved depth) = line.written layout.indentSize depth := by
      rw [Layout.lineText, Line.moved, own, Line.written]
    rw [List.map_cons, List.foldl_cons, ih _ fun line later => counted line (.tail _ later), Writer.text_line,
      first, String.append_assoc, List.map_cons, String.join_cons]

/-- Lines have so many lines before them in other lines. -/
def Stands (lines : List Line) (position : Nat) (part : List Line) : Prop :=
  ∃ before after, lines = before ++ part ++ after ∧ before.length = position

theorem Stands.trans {inner : List Line} {position start : Nat} (stands : Stands lines position inner)
    (stands' : Stands inner start more) : Stands lines (position + start) more := by
  obtain ⟨before, after, rfl, rfl⟩ := stands
  obtain ⟨before', after', rfl, rfl⟩ := stands'
  exact ⟨before ++ before', after' ++ after, by simp, by simp⟩

theorem Stands.moved {position : Nat} (stands : Stands lines position more) (step : Nat) :
    Stands (lines.map (·.moved step)) position (more.map (·.moved step)) := by
  obtain ⟨before, after, rfl, rfl⟩ := stands
  exact ⟨before.map (·.moved step), after.map (·.moved step), by simp, by simp⟩

private theorem map_moved (step step' : Nat) (lines : List Line) :
    (lines.map (·.moved step')).map (·.moved step) = lines.map (·.moved (step + step')) := by
  simp [Line.moved, Nat.add_assoc]

private theorem map_unmoved (lines : List Line) :
    lines.map (·.moved 0) = lines := by simp [Line.moved]

end Java

/-! ### The statements inside -/

namespace Stmt
open Java
variable {stmt inner part ifTrue ifFalse : Stmt} {body : List Stmt} {position header start : Nat} {text : String}

/-- The lines of a statement, their depths counted from its own. -/
def rows (stmt : Stmt) : List Line := stmt.toJava.lines 0

/-- The lines of statements in sequence. -/
def bodyRows (body : List Stmt) : List Line := bodyLines 0 (bodyToJava body)

/-- How much deeper than a header a statement stands, which is also how many lines of braces are put on each side
of it before an `else`. -/
def step : Stmt → Nat
  | block _ => 0
  | _ => 1

/-- A line of a statement is the header of a statement inside, whose own lines start at another line. -/
inductive Governs : Stmt → Nat → String → Nat → Stmt → Prop
  | loop {body : Stmt} : Governs (loop body) 0 loopHeader 1 body
  | only {comparison : Comparison} {lhs rhs : Expr} {ifTrue : Stmt} :
    Governs (branch comparison lhs rhs ifTrue (block [])) 0 (ifHeader comparison lhs rhs) 1 ifTrue
  | ifTrue {comparison : Comparison} {lhs rhs : Expr} {ifTrue ifFalse : Stmt} : ifFalse ≠ block [] →
    Governs (branch comparison lhs rhs ifTrue ifFalse) 0 (ifHeader comparison lhs rhs) (1 + ifTrue.step) ifTrue
  | ifFalse {comparison : Comparison} {lhs rhs : Expr} {ifTrue ifFalse : Stmt} : ifFalse ≠ block [] →
    Governs (branch comparison lhs rhs ifTrue ifFalse) (1 + ifTrue.step + ifTrue.rows.length + ifTrue.step) "else"
      (2 + ifTrue.step + ifTrue.rows.length + ifTrue.step) ifFalse

/-- A statement is written as part of another one, behind so many of its lines. In a block that goes for the
statements up to the first one that cannot complete. -/
inductive Writes : Stmt → Nat → Stmt → Prop
  | whole {stmt : Stmt} : Writes stmt 0 stmt
  | block {before after : List Stmt} {inner part : Stmt} {position : Nat} :
    (∀ earlier ∈ before, earlier.ways.completes = true) → Writes inner position part →
    Writes (block (before ++ inner :: after)) (1 + (bodyRows before).length + position) part
  | governed {stmt inner part : Stmt} {header start position : Nat} {text : String} :
    Governs stmt header text start inner → Writes inner position part → Writes stmt (start + position) part

/-- The same for statements in sequence. -/
def BodyWrites (body : List Stmt) (position : Nat) (part : Stmt) : Prop :=
  ∃ before inner after own, body = before ++ inner :: after ∧
    (∀ earlier ∈ before, earlier.ways.completes = true) ∧ Writes inner own part ∧
    position = (bodyRows before).length + own

/-- Statements that complete are followed by the others. -/
private theorem bodyRows_append {before : List Stmt}
    (complete : ∀ earlier ∈ before, earlier.ways.completes = true)
    (rest : List Stmt) : bodyRows (before ++ rest) = bodyRows before ++ bodyRows rest := by
  induction before with
  | nil => simp [bodyRows]
  | cons stmt before ih =>
    have later := ih fun earlier held => complete earlier (.tail _ held)
    simp only [bodyRows] at later ⊢
    simp [complete stmt (.head _), later]

/-- Among them a statement has its lines where it is written. -/
private theorem bodyRows_stands {before after : List Stmt}
    (complete : ∀ earlier ∈ before, earlier.ways.completes = true) :
    Stands (bodyRows (before ++ inner :: after)) (bodyRows before).length inner.rows := by
  rw [bodyRows_append complete]
  refine ⟨_, if inner.ways.completes then bodyRows after else [], ?_, rfl⟩
  simp only [bodyRows, bodyToJava_cons, bodyLines_cons, List.append_assoc]
  split <;> simp [rows]

private theorem rows_block (body : List Stmt) :
    (block body).rows = ⟨0, "\x7b"⟩ :: (bodyRows body).map (·.moved 1) ++ [⟨0, "\x7d"⟩] := by
  rw [rows, toJava_block, Java.Stmt.lines_block, bodyRows, ← bodyLines_moved]

/-- A statement is a block, or it stands deeper under a header and is the only one between braces put around it. -/
private theorem block_or_other (stmt : Stmt) : (∃ body, stmt = block body) ∨
    stmt.step = 1 ∧ stmt.toJava.braced = [stmt.toJava] ∧ ∀ depth, stmt.toJava.depthUnder depth = 1 + depth := by
  cases stmt with
  | block body => exact .inl ⟨body, rfl⟩
  | branch comparison lhs rhs ifTrue ifFalse =>
    refine .inr ⟨rfl, ?_⟩
    by_cases empty : ifFalse = block []
    · rw [empty, toJava_branch_empty]
      exact ⟨rfl, fun depth => Nat.add_comm depth 1⟩
    · rw [toJava_branch _ _ _ _ _ empty]
      exact ⟨rfl, fun depth => Nat.add_comm depth 1⟩
  | _ => exact .inr ⟨rfl, by simp [Java.Stmt.braced], by simp [Java.Stmt.depthUnder, Nat.add_comm]⟩

/-- Under a header a statement has its own lines, as much deeper as its form asks for. -/
private theorem lines_under (stmt : Stmt) :
    stmt.toJava.lines (stmt.toJava.depthUnder 0) = stmt.rows.map (·.moved stmt.step) := by
  rcases block_or_other stmt with ⟨body, rfl⟩ | ⟨one, -, deeper⟩
  · rw [step, map_unmoved, rows, toJava_block]
    rfl
  · rw [one, deeper, Java.Stmt.lines_moved, rows]

/-- Before an `else` braces are put around a statement that has none. -/
private theorem lines_braced (stmt : Stmt) :
    ⟨0, "\x7b"⟩ :: bodyLines 1 stmt.toJava.braced ++ [⟨0, "\x7d"⟩] =
    List.replicate stmt.step ⟨0, "\x7b"⟩ ++ stmt.rows.map (·.moved stmt.step) ++
      List.replicate stmt.step ⟨0, "\x7d"⟩ := by
  rcases block_or_other stmt with ⟨body, rfl⟩ | ⟨one, alone, -⟩
  · rw [step, map_unmoved, rows, toJava_block, Java.Stmt.lines_block]
    simp [Java.Stmt.braced]
  · rw [one, alone, rows, ← Java.Stmt.lines_moved]
    simp

private theorem rows_branch {comparison : Comparison} {lhs rhs : Expr} (some : ifFalse ≠ block []) :
    (branch comparison lhs rhs ifTrue ifFalse).rows = [⟨0, ifHeader comparison lhs rhs⟩] ++
      List.replicate ifTrue.step ⟨0, "\x7b"⟩ ++ ifTrue.rows.map (·.moved ifTrue.step) ++
      List.replicate ifTrue.step ⟨0, "\x7d"⟩ ++ [⟨0, "else"⟩] ++ ifFalse.rows.map (·.moved ifFalse.step) := by
  rw [rows, toJava_branch _ _ _ _ _ some, Java.Stmt.lines_ifElse, lines_under]
  calc
    _ = [⟨0, ifHeader comparison lhs rhs⟩] ++
        (⟨0, "\x7b"⟩ :: bodyLines 1 ifTrue.toJava.braced ++ [⟨0, "\x7d"⟩]) ++ [⟨0, "else"⟩] ++
        ifFalse.rows.map (·.moved ifFalse.step) := by simp
    _ = _ := by rw [lines_braced]; simp only [List.append_assoc]

/-- A header stands at the depth of its statement, and the statement under it where it is said to, as much deeper
as its form asks for. -/
theorem Governs.stands (governs : Governs stmt header text start inner) :
    Stands stmt.rows header [⟨0, text⟩] ∧ Stands stmt.rows start (inner.rows.map (·.moved inner.step)) := by
  cases governs with
  | loop =>
    rw [rows, toJava_loop, Java.Stmt.lines_whileTrue, lines_under]
    exact ⟨⟨[], _, rfl, rfl⟩, ⟨[⟨0, loopHeader⟩], [], by simp, rfl⟩⟩
  | @only comparison lhs rhs =>
    rw [rows, toJava_branch_empty, Java.Stmt.lines_ifThen, lines_under]
    exact ⟨⟨[], _, rfl, rfl⟩, ⟨[⟨0, ifHeader comparison lhs rhs⟩], [], by simp, rfl⟩⟩
  | @ifTrue comparison lhs rhs _ ifFalse some =>
    rw [rows_branch some]
    refine ⟨⟨[], _, by simp only [List.append_assoc]; rfl, rfl⟩,
      ⟨[⟨0, ifHeader comparison lhs rhs⟩] ++ List.replicate inner.step ⟨0, "\x7b"⟩,
        List.replicate inner.step ⟨0, "\x7d"⟩ ++ [⟨0, "else"⟩] ++ ifFalse.rows.map (·.moved ifFalse.step), ?_, ?_⟩⟩
    · simp only [List.append_assoc]
    · simp only [List.length_append, List.length_singleton, List.length_replicate]
  | ifFalse some =>
    rw [rows_branch some]
    refine ⟨⟨_, _, rfl, ?_⟩, ⟨_, [], (List.append_nil _).symm, ?_⟩⟩
    · simp only [List.length_append, List.length_singleton, List.length_replicate, List.length_map]
    · simp only [List.length_append, List.length_singleton, List.length_replicate, List.length_map]
      omega

/-- A statement inside another one has its own lines where it is written, all as much deeper. -/
theorem Writes.stands (writes : Writes stmt position part) :
    ∃ more, Stands stmt.rows position (part.rows.map (·.moved more)) := by
  induction writes with
  | whole => exact ⟨0, [], [], by rw [map_unmoved]; simp, rfl⟩
  | @block before after inner part position complete _ ih =>
    obtain ⟨more, stands⟩ := ih
    have among : Stands (bodyRows (before ++ inner :: after)) (bodyRows before).length inner.rows :=
      bodyRows_stands complete
    have front : Stands (Stmt.block (before ++ inner :: after)).rows 1
        ((bodyRows (before ++ inner :: after)).map (·.moved 1)) :=
      ⟨[⟨0, "\x7b"⟩], [⟨0, "\x7d"⟩], rows_block _, rfl⟩
    have inside := front.trans ((among.trans stands).moved 1)
    rw [map_moved, ← Nat.add_assoc] at inside
    exact ⟨_, inside⟩
  | governed governs _ ih =>
    obtain ⟨more, stands⟩ := ih
    have inside := governs.stands.2.trans (stands.moved _)
    rw [map_moved] at inside
    exact ⟨_, inside⟩

/-- The own lines of a statement under a header of some depth: a block has its braces at this depth, and any other
statement has all lines deeper. -/
structure Under (depth : Nat) (stmt : Stmt) (own : List Line) : Prop where
  same : ∃ more, own = stmt.rows.map (·.moved more)
  braced : ∀ body, stmt = block body → ∃ inside, own = ⟨depth, "\x7b"⟩ :: inside ++ [⟨depth, "\x7d"⟩]
  deeper : (∀ body, stmt ≠ block body) → ∀ line ∈ own, depth < line.depth

private theorem under_step (depth : Nat) (stmt : Stmt) :
    Under depth stmt (stmt.rows.map (·.moved (depth + stmt.step))) := by
  refine ⟨⟨_, rfl⟩, ?_, fun other line held => ?_⟩
  · rintro body rfl
    refine ⟨(bodyRows body).map (·.moved (depth + 1)), ?_⟩
    rw [rows_block]
    simp [step, Line.moved, Nat.add_assoc]
  · obtain ⟨row, -, rfl⟩ := List.mem_map.mp held
    rcases block_or_other stmt with ⟨body, rfl⟩ | ⟨one, -⟩
    · exact absurd rfl (other body)
    · simp only [Line.moved, one]
      omega

/-- Every statement that a header governs stands under it. -/
def HeadersLead (lines : List Line) (writes : Nat → Stmt → Prop) : Prop :=
  ∀ position part, writes position part →
    ∀ header text start inner, part.Governs header text start inner →
      ∃ depth own, Stands lines (position + header) [⟨depth, text⟩] ∧ Stands lines (position + start) own ∧
        Under depth inner own

/-- Wherever the lines of parts stand, their headers lead. -/
theorem headers_lead {lines : List Line} {writes : Nat → Stmt → Prop}
    (stands : ∀ position part, writes position part → ∃ more, Stands lines position (part.rows.map (·.moved more))) :
    HeadersLead lines writes := by
  intro position part written header text start inner governs
  obtain ⟨more, own⟩ := stands position part written
  obtain ⟨first, under⟩ := governs.stands
  have below := own.trans (under.moved more)
  rw [map_moved] at below
  exact ⟨more, _, own.trans (first.moved more), below, under_step more inner⟩

/-- What depths and layouts do to lines, and how these stand to each other. -/
structure MovesSideways (rows : List Line) (lines : Nat → List Line) (writes : Nat → Stmt → Prop) : Prop where
  whole : ∀ row ∈ rows, '\n' ∉ row.text.toList
  appended : ∀ (layout : Layout) (writer : Writer) (depth : Nat),
    (∀ row ∈ rows, (depth + row.depth) * layout.indentSize < 2 ^ 64) →
    ((lines depth).foldl (Writer.line layout) writer).text =
      writer.text ++ String.join (rows.map (·.written layout.indentSize depth))
  headers : HeadersLead rows writes
  braces : Matched rows

/-- A statement whose names have no newline is written as one list of lines, and so are statements in sequence:
the depth, the layout and what was written before have no part in it. -/
theorem depth_moves_sideways :
    (∀ stmt : Stmt, (∀ name, stmt.Mentions name → '\n' ∉ name.toList) →
      MovesSideways stmt.rows (fun depth => stmt.toJava.lines depth) stmt.Writes) ∧
    ∀ body : List Stmt, (∀ name, BodyMentions name body → '\n' ∉ name.toList) →
      MovesSideways (bodyRows body) (fun depth => bodyLines depth (bodyToJava body)) (BodyWrites body) := by
  constructor
  · intro stmt names
    refine ⟨Java.Stmt.lines_free 0 _ fun name mentions => names name (toJava_mentions stmt mentions), ?_,
      headers_lead fun _ _ => Writes.stands, Java.Stmt.matched 0 _⟩
    intro layout writer depth counted
    have moved := Java.Stmt.lines_moved depth 0 stmt.toJava
    rw [Nat.add_zero] at moved
    simp only [moved]
    exact text_foldl_line layout writer counted
  · intro body names
    refine ⟨bodyLines_free 0 _ fun name mentions => names name (bodyToJava_mentions body mentions), ?_,
      headers_lead ?_, bodyMatched 0 _⟩
    · intro layout writer depth counted
      have moved := bodyLines_moved depth 0 (bodyToJava body)
      rw [Nat.add_zero] at moved
      simp only [moved]
      exact text_foldl_line layout writer counted
    · rintro position part ⟨before, inner, after, own, rfl, complete, written, rfl⟩
      obtain ⟨more, stands⟩ := written.stands
      exact ⟨more, (bodyRows_stands complete).trans stands⟩

/-- A loop is written one step farther in than a class, with its body under it. -/
theorem loop_moves_sideways :
    let stmt := loop (block [print (.var "total"), exit])
    (∀ name, stmt.Mentions name → '\n' ∉ name.toList) ∧ stmt.Mentions "total" ∧
      ((stmt.toJava.lines 1).foldl (Writer.line ⟨3, "Main"⟩) ⟨"class Main\n"⟩).text =
        "class Main\n   while (true)\n   \x7b\n      System.out.println(total);\n      break;\n   \x7d\n" := by
  intro stmt
  have names : ∀ name, stmt.Mentions name → '\n' ∉ name.toList := by
    intro name mentions
    have same : "total" = name := by simpa [stmt, Mentions, BodyMentions, Expr.Mentions] using mentions
    subst same
    decide
  refine ⟨names, .inl rfl, ?_⟩
  have written := (depth_moves_sideways.1 stmt names).appended ⟨3, "Main"⟩ ⟨"class Main\n"⟩ 1 (by decide)
  exact written.trans (by decide +kernel)

end Stmt
end LoopLang
