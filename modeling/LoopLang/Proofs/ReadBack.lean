import LoopLang.Proofs.JavaGrammar
import LoopLang.Proofs.JavaSpelling

/-! What is written reads back. The tree that a statement is meant to have is given on the source, where
nothing is said about text: each operation and each comparison has its operator of Java, and each number
its double. The grammar finds just this tree in the lines of the translation. -/
namespace LoopLang
open Java (Term Tree)

/-- The tree of a number. A negative one is a literal behind a minus, and values without digits are fields
of the class `Double`. -/
def Java.numberTerm (number : Number) : Term :=
  match number.meaning with
  | .nan => .name ["Double", "NaN"]
  | .infinite true => .name ["Double", "NEGATIVE_INFINITY"]
  | .infinite false => .name ["Double", "POSITIVE_INFINITY"]
  | .finite true _ => .negative (.literal number.unsigned)
  | .finite false _ => .literal number

/-- The tree of an operation. The power is a method. -/
def Operator.term : Operator → Term → Term → Term
  | add, lhs, rhs => .binary .plus lhs rhs
  | sub, lhs, rhs => .binary .minus lhs rhs
  | mul, lhs, rhs => .binary .times lhs rhs
  | div, lhs, rhs => .binary .divided lhs rhs
  | pow, lhs, rhs => .call ["Math", "pow"] [lhs, rhs]

/-- The operator of a comparison. -/
def Comparison.sign : Comparison → Java.Sign
  | eq => .equal
  | ne => .unequal
  | lt => .less
  | le => .atMost
  | gt => .greater
  | ge => .atLeast

/-- The tree of an expression. -/
def Expr.term : Expr → Term
  | .constant number => Java.numberTerm number
  | .var name => .name [name]
  | .binary operator lhs rhs => operator.term lhs.term rhs.term

/-- Every operation but the power is written with the sign of its operator of Java, -/
theorem Operator.exists_sign (operator : Operator) (notPower : operator ≠ .pow) :
    ∃ sign : Java.Sign, operator.symbol = sign.text ∧ sign ∈ Java.precedence.flatten ∧
      ∀ lhs rhs, operator.term lhs rhs = .binary sign lhs rhs := by
  cases operator with
  | add => exact ⟨.plus, rfl, by decide, fun _ _ => rfl⟩
  | sub => exact ⟨.minus, rfl, by decide, fun _ _ => rfl⟩
  | mul => exact ⟨.times, rfl, by decide, fun _ _ => rfl⟩
  | div => exact ⟨.divided, rfl, by decide, fun _ _ => rfl⟩
  | pow => exact absurd rfl notPower

/-- and so is every comparison. -/
theorem Comparison.symbol_eq (comparison : Comparison) : comparison.symbol = comparison.sign.text := by
  cases comparison <;> rfl

namespace Java

/-! ### Expressions -/

/-- The digits of a magnitude stand for the double that they were written for. -/
private theorem literal_digits {number : Number} {magnitude : Binary}
    (meant : number.meaning = .finite false magnitude) :
    literal? (String.ofList (numberStyle.digits magnitude)) = some number := by
  refine literal?_eq_some_iff.mpr ⟨magnitude.shortest.value, magnitude, ?_, meant, magnitude.shortest_covers, ?_⟩
  · rw [String.toList_ofList]
    exact Number.Style.magnitude_digits rfl magnitude
  · intro zero
    simp [Binary.shortest, zero, Decimal.value]

theorem literal_zero : literal? "0.0" = some ⟨0⟩ := by
  have digits : String.ofList (numberStyle.digits ⟨0, -1074⟩) = "0.0" := by decide +kernel
  rw [← digits]
  exact literal_digits (by decide)

section levels
variable {operand : Reader Term} {levels : List (List Sign)} {signs : List Sign}
  {tokens rest behind : List Token} {lhs rhs whole : Term} {sign : Sign}

/-- An operator is found by its text. -/
private theorem oneOf_held (held : sign ∈ signs) :
    oneOf signs (.symbol sign.text :: behind) = some (sign, behind) := by
  have found : signs.find? (fun other => other.text == sign.text) = some sign := by
    cases finds : signs.find? (fun other => other.text == sign.text) with
    | none => simpa using List.find?_eq_none.mp finds sign held
    | some other =>
      have alike := List.find?_some finds
      rw [Sign.text_injective (beq_iff_eq.mp alike)]
  simp [oneOf, found]

/-- None of the operators comes next. -/
def Quiet (signs : List Sign) (rest : List Token) : Prop :=
  ∀ sign ∈ signs, rest.head? ≠ some (.symbol sign.text)

private theorem oneOf_quiet (quiet : Quiet signs rest) : oneOf signs rest = none := by
  unfold oneOf
  split
  · rename_i text behind
    have none : signs.find? (fun sign => sign.text == text) = none := by
      rw [List.find?_eq_none]
      rintro sign held alike
      exact quiet sign held (by rw [beq_iff_eq.mp alike, List.head?_cons])
    rw [none, Option.map_none]
  · rfl

private theorem chainFrom_quiet (quiet : Quiet signs rest) (count : Nat) :
    chainFrom signs operand count lhs rest = some (lhs, rest) := by
  cases count with
  | zero => rfl
  | succ count => rw [chainFrom, oneOf_quiet quiet]

private theorem chain_quiet (reads : operand tokens = some (whole, rest))
    (quiet : Quiet signs rest) :
    chain signs operand tokens = some (whole, rest) := by
  simp [chain, reads, chainFrom_quiet quiet]

/-- An operand that no operator follows is an expression by itself. -/
private theorem levels_quiet (reads : operand tokens = some (whole, rest))
    (quiet : ∀ signs ∈ levels, Quiet signs rest) :
    levels.foldr chain operand tokens = some (whole, rest) := by
  induction levels with
  | nil => exact reads
  | cons signs levels ih =>
    exact chain_quiet (ih fun inner held => quiet inner (.tail _ held)) (quiet signs (.head _))

/-- Two operands around an operator are one operation, whatever its precedence. -/
private theorem levels_once (once : levels.flatten.Nodup) (held : sign ∈ levels.flatten)
    (left : operand tokens = some (lhs, .symbol sign.text :: behind))
    (right : operand behind = some (rhs, rest)) (quiet : ∀ signs ∈ levels, Quiet signs rest) :
    levels.foldr chain operand tokens = some (.binary sign lhs rhs, rest) := by
  induction levels with
  | nil => cases held
  | cons signs levels ih =>
    rw [List.flatten_cons] at once
    obtain ⟨-, once, disjoint⟩ := List.nodup_append.mp once
    have quietInner : ∀ inner ∈ levels, Quiet inner rest := fun inner held => quiet inner (.tail _ held)
    have quietHere : Quiet signs rest := quiet signs (.head _)
    rw [List.foldr_cons]
    by_cases here : sign ∈ signs
    · have others : ∀ inner ∈ levels, Quiet inner (.symbol sign.text :: behind) := by
        intro inner level other inside same
        rw [List.head?_cons, Option.some.injEq, Token.symbol.injEq] at same
        exact disjoint sign here other (List.mem_flatten_of_mem level inside) (Sign.text_injective same)
      have first := levels_quiet left others
      have second := levels_quiet right quietInner
      simp [chain, first, chainFrom, oneOf_held here, second, chainFrom_quiet quietHere]
    · have deeper : sign ∈ levels.flatten := by simpa [here] using held
      exact chain_quiet (ih once deeper quietInner) quietHere

end levels

/-- One of the signs that end an operand stands next. -/
def Stops (rest : List Token) : Prop :=
  ∃ sign behind, rest = .symbol sign :: behind ∧ sign ≠ "." ∧ sign ≠ "("

/-- One of the signs that end an expression stands next. -/
def Ended (rest : List Token) : Prop :=
  ∃ sign behind, rest = .symbol sign :: behind ∧ sign ∈ [")", ",", ";"]

theorem Ended.quiet {rest : List Token} (ended : Ended rest) :
    ∀ signs ∈ precedence, Quiet signs rest := by
  obtain ⟨sign, behind, rfl, held⟩ := ended
  intro signs level other inside same
  rw [List.head?_cons, Option.some.injEq, Token.symbol.injEq] at same
  subst same
  cases other <;> simp [Sign.text] at held

theorem Ended.stops {rest : List Token} (ended : Ended rest) : Stops rest := by
  obtain ⟨sign, behind, rfl, held⟩ := ended
  refine ⟨sign, behind, rfl, ?_, ?_⟩
  · rintro rfl
    simp at held
  · rintro rfl
    simp at held

private theorem qualified_sign {sign : String} (point : sign ≠ ".") (parts : List String)
    (behind : List Token) : qualified parts (.symbol sign :: behind) = (parts, .symbol sign :: behind) := by
  unfold qualified
  split
  · rename_i same
    cases same
    exact if_neg point
  · rfl

private theorem qualified_stops {rest : List Token} (stops : Stops rest) (parts : List String) :
    qualified parts rest = (parts, rest) := by
  obtain ⟨sign, behind, rfl, point, -⟩ := stops
  exact qualified_sign point parts behind

private theorem expect_stops {rest : List Token} (stops : Stops rest) :
    expect (.symbol "(") rest = none := by
  obtain ⟨sign, behind, rfl, -, opening⟩ := stops
  simp [expect, opening]

private theorem operand_name {rest : List Token} (stops : Stops rest) (depth : Nat)
    (name : String) :
    operand (depth + 1) (.name name :: rest) = some (.name [name], rest) := by
  simp [operand, qualified_stops stops, expect_stops stops]

private theorem operand_field {rest : List Token} (stops : Stops rest) (depth : Nat)
    (name field : String) :
    operand (depth + 1) (.name name :: .symbol "." :: .name field :: rest) =
      some (.name [name, field], rest) := by
  simp [operand, qualified, qualified_stops stops, expect_stops stops]

private theorem operand_call {tokens behind rest : List Token} {name : String} {parts : List String}
    {given : List Term} {depth : Nat}
    (called : qualified [name] behind = (parts, .symbol "(" :: tokens))
    (reads : arguments (expression (operand depth)) tokens.length tokens = some (given, rest)) :
    operand (depth + 1) (.name name :: behind) = some (.call parts given, rest) := by
  simp [operand, called, expect, reads]

private theorem stops_sign (sign : Sign) (behind : List Token) :
    Stops (.symbol sign.text :: behind) := by
  refine ⟨sign.text, behind, rfl, ?_, ?_⟩
  · cases sign <;> simp [Sign.text]
  · cases sign <;> simp [Sign.text]

private theorem comparison_held (comparison : Comparison) :
    comparison.sign ∈ precedence.flatten := by
  cases comparison <;> decide

/-- An operand is read from the front of the tokens, whatever ends it. -/
def Reads (operand : Reader Term) (tokens : List Token) (tree : Term) : Prop :=
  ∀ rest, Stops rest → operand (tokens ++ rest) = some (tree, rest)

theorem Reads.expression {operand : Reader Term} {tokens rest : List Token} {tree : Term}
    (reads : Reads operand tokens tree) (ended : Ended rest) :
    expression operand (tokens ++ rest) = some (tree, rest) :=
  levels_quiet (reads rest ended.stops) ended.quiet

theorem Reads.operation {operand : Reader Term} {first second rest : List Token} {lhs rhs : Term}
    {sign : Sign} (left : Reads operand first lhs) (right : Reads operand second rhs)
    (held : sign ∈ precedence.flatten) (ended : Ended rest) :
    Java.expression operand (first ++ .symbol sign.text :: (second ++ rest)) =
      some (.binary sign lhs rhs, rest) :=
  levels_once (by decide) held (left _ (stops_sign sign _)) (right rest ended.stops) ended.quiet

theorem Reads.arguments_one {operand : Reader Term} {tokens : List Token} {tree : Term}
    (reads : Reads operand tokens tree) (count : Nat) (rest : List Token) :
    arguments (Java.expression operand) (count + 1) (tokens ++ .symbol ")" :: rest) =
      some ([tree], rest) := by
  have ended : Ended (.symbol ")" :: rest) := ⟨_, _, rfl, by simp⟩
  simp [arguments, reads.expression ended]

theorem Reads.arguments_two {operand : Reader Term} {first second : List Token} {lhs rhs : Term}
    (left : Reads operand first lhs) (right : Reads operand second rhs) (count : Nat)
    (rest : List Token) :
    arguments (Java.expression operand) (count + 2)
      (first ++ .symbol "," :: (second ++ .symbol ")" :: rest)) = some ([lhs, rhs], rest) := by
  have ended (behind : List Token) : Ended (.symbol "," :: behind) := ⟨_, _, rfl, by simp⟩
  have last := right.arguments_one count rest
  rw [arguments, left.expression (ended _)]
  simp [last]

theorem number_reads (number : Number) (depth : Nat) (fits : (numberTokens number).length ≤ depth) :
    Reads (operand depth) (numberTokens number) (numberTerm number) := by
  intro rest stops
  rw [numberTokens] at fits ⊢
  rw [numberTerm]
  cases meant : number.meaning with
  | nan =>
    rw [meant] at fits
    obtain ⟨inner, rfl⟩ := Nat.exists_eq_add_of_le' fits
    exact operand_field stops (inner + 2) "Double" "NaN"
  | infinite negative =>
    rw [meant] at fits
    cases negative with
    | true =>
      obtain ⟨inner, rfl⟩ := Nat.exists_eq_add_of_le' fits
      exact operand_field stops (inner + 2) "Double" "NEGATIVE_INFINITY"
    | false =>
      obtain ⟨inner, rfl⟩ := Nat.exists_eq_add_of_le' fits
      exact operand_field stops (inner + 2) "Double" "POSITIVE_INFINITY"
  | finite negative magnitude =>
    rw [meant] at fits
    cases negative with
    | true =>
      obtain ⟨inner, rfl⟩ := Nat.exists_eq_add_of_le' fits
      simp [operand, literal_digits (Number.meaning_unsigned meant)]
    | false =>
      obtain ⟨inner, rfl⟩ := Nat.exists_eq_add_of_le' fits
      simp [operand, literal_digits meant]

theorem expr_reads (expr : Expr) (depth : Nat) (fits : expr.tokens.length ≤ depth) :
    Reads (operand depth) expr.tokens expr.term := by
  induction expr generalizing depth with
  | constant value => exact number_reads value depth fits
  | var name =>
    intro rest stops
    obtain ⟨inner, rfl⟩ := Nat.exists_eq_add_of_le' fits
    exact operand_name stops inner name
  | binary operator lhs rhs left right =>
    intro rest stops
    rw [Expr.term]
    by_cases power : operator = .pow
    · subst power
      rw [Expr.tokens] at fits ⊢
      simp only [List.length_append, List.length_cons, List.length_nil] at fits
      obtain ⟨inner, rfl⟩ : ∃ inner, depth = inner + 1 := ⟨depth - 1, by omega⟩
      have called (behind : List Token) : qualified ["Math"]
          (.symbol "." :: .name "pow" :: .symbol "(" :: behind) =
          (["Math", "pow"], .symbol "(" :: behind) := by
        simp [qualified, qualified_sign]
      have given (count : Nat) := (left inner (by omega)).arguments_two (right inner (by omega)) count rest
      have longer : (lhs.tokens ++ .symbol "," :: (rhs.tokens ++ .symbol ")" :: rest)).length =
          lhs.tokens.length + rhs.tokens.length + rest.length + 2 := by
        simp only [List.length_append, List.length_cons]
        omega
      have call := operand_call (called _) (longer ▸ given _)
      simpa [Operator.term] using call
    · obtain ⟨sign, symbol, held, tree⟩ := operator.exists_sign power
      rw [Expr.tokens_binary power] at fits ⊢
      rw [tree, symbol]
      simp only [List.length_append, List.length_cons, List.length_nil] at fits
      obtain ⟨inner, rfl⟩ : ∃ inner, depth = inner + 1 := ⟨depth - 1, by omega⟩
      have ended : Ended (.symbol ")" :: rest) := ⟨_, _, rfl, by simp⟩
      have inside := (left inner (by omega)).operation (right inner (by omega)) held ended
      simp [operand, inside, expect]

theorem term_reads (expr : Expr) {rest : List Token} (ended : Ended rest) :
    term (expr.tokens ++ rest) = some (expr.term, rest) :=
  (expr_reads expr _ (by simp)).expression ended

/-- The tree of a condition. -/
def test (comparison : Comparison) (lhs rhs : Expr) : Term :=
  .binary comparison.sign lhs.term rhs.term

theorem condition_reads (comparison : Comparison) (lhs rhs : Expr) (rest : List Token) :
    condition (.symbol "(" :: (lhs.tokens ++ .symbol comparison.symbol ::
      (rhs.tokens ++ .symbol ")" :: rest))) = some (test comparison lhs rhs, rest) := by
  rw [comparison.symbol_eq]
  have ended : Ended (.symbol ")" :: rest) := ⟨_, _, rfl, by simp⟩
  have inside : term (lhs.tokens ++ .symbol comparison.sign.text ::
      (rhs.tokens ++ .symbol ")" :: rest)) = some (test comparison lhs rhs, .symbol ")" :: rest) := by
    have left := expr_reads lhs (lhs.tokens ++ .symbol comparison.sign.text ::
      (rhs.tokens ++ .symbol ")" :: rest)).length (by simp)
    have right := expr_reads rhs (lhs.tokens ++ .symbol comparison.sign.text ::
      (rhs.tokens ++ .symbol ")" :: rest)).length (by simp; omega)
    exact left.operation right (comparison_held comparison) ended
  simp [condition, expect, inside]

private theorem loop_condition_reads (rest : List Token) :
    condition (.symbol "(" :: .keyword "true" :: .symbol ")" :: rest) = some (.truth, rest) := by
  have ended : Ended (.symbol ")" :: rest) := ⟨_, _, rfl, by simp⟩
  have reads (depth : Nat) : Reads (operand (depth + 1)) [.keyword "true"] .truth :=
    fun rest _ => by simp [operand]
  have inside : term (.keyword "true" :: .symbol ")" :: rest) =
      some (.truth, .symbol ")" :: rest) := (reads _).expression ended
  simp [condition, expect, inside]

mutual

/-- The tree of a statement. -/
def Stmt.tree : Stmt → Tree
  | .block body => .block (bodyTrees body)
  | .assign name value => .assign name value.term
  | .ifThen comparison lhs rhs ifTrue => .ifThen (test comparison lhs rhs) ifTrue.tree
  | .ifElse comparison lhs rhs ifTrue ifFalse =>
    .ifElse (test comparison lhs rhs) (.block (bodyTrees ifTrue)) ifFalse.tree
  | .whileTrue body => .whileLoop .truth body.tree
  | .leave => .leave
  | .println value => .perform (.call ["System", "out", "println"] [value.term])

def bodyTrees : List Stmt → List Tree
  | [] => []
  | stmt :: rest => stmt.tree :: bodyTrees rest

end

/-- No statement begins with an `else`, a type or a closing brace. -/
private theorem Stmt.tokens_begin (stmt : Stmt) : ∃ first more, stmt.tokens = first :: more ∧
    first ≠ .keyword "else" ∧ first ≠ .keyword "double" ∧ first ≠ .symbol "\x7d" := by
  cases stmt <;> simp [Stmt.tokens, ifTokens, loopTokens]

/-- Nor does what stands before a closing brace. -/
theorem bodyTokens_begin (body : List Stmt) (rest : List Token) {word : String}
    (other : word = "else" ∨ word = "double") :
    (bodyTokens body ++ .symbol "\x7d" :: rest).head? ≠ some (.keyword word) := by
  cases body with
  | nil => simp [bodyTokens]
  | cons stmt body =>
    obtain ⟨first, more, begins, noElse, noType, -⟩ := stmt.tokens_begin
    rcases other with rfl | rfl
    · simpa [bodyTokens, begins] using noElse
    · simpa [bodyTokens, begins] using noType

theorem expect_none {token : Token} {rest : List Token} (other : rest.head? ≠ some token) :
    expect token rest = none := by
  cases rest with
  | nil => rfl
  | cons next rest => exact if_neg fun same => other (congrArg some same)

private theorem assign_reads (name : String) (value : Expr) (rest : List Token) :
    simpleStatement (.name name :: .symbol "=" :: (value.tokens ++ .symbol ";" :: rest)) =
      some (.assign name value.term, rest) := by
  have target : term (.name name :: .symbol "=" :: (value.tokens ++ .symbol ";" :: rest)) =
      some (.name [name], .symbol "=" :: (value.tokens ++ .symbol ";" :: rest)) := by
    refine levels_quiet (operand_name ⟨_, _, rfl, by decide, by decide⟩ _ name) ?_
    simp [precedence, Quiet, Sign.text]
  have assigned : term (value.tokens ++ .symbol ";" :: rest) =
      some (value.term, .symbol ";" :: rest) := term_reads value ⟨_, _, rfl, by simp⟩
  simp [simpleStatement, target, expect, assigned]

private theorem println_reads (value : Expr) (rest : List Token) :
    simpleStatement (.name "System" :: .symbol "." :: .name "out" :: .symbol "." :: .name "println" ::
      .symbol "(" :: (value.tokens ++ .symbol ")" :: .symbol ";" :: rest)) =
      some (.perform (.call ["System", "out", "println"] [value.term]), rest) := by
  have called (behind : List Token) : qualified ["System"] (.symbol "." :: .name "out" ::
      .symbol "." :: .name "println" :: .symbol "(" :: behind) =
      (["System", "out", "println"], .symbol "(" :: behind) := by
    simp [qualified, qualified_sign]
  have given (depth : Nat) (fits : value.tokens.length ≤ depth) (count : Nat) :=
    (expr_reads value depth fits).arguments_one count (.symbol ";" :: rest)
  have longer : (value.tokens ++ .symbol ")" :: .symbol ";" :: rest).length =
      value.tokens.length + rest.length + 1 + 1 := by
    simp only [List.length_append, List.length_cons]
    omega
  have ended : Ended (.symbol ";" :: rest) := ⟨_, _, rfl, by simp⟩
  have read : term (.name "System" :: .symbol "." :: .name "out" :: .symbol "." :: .name "println" ::
      .symbol "(" :: (value.tokens ++ .symbol ")" :: .symbol ";" :: rest)) =
      some (.call ["System", "out", "println"] [value.term], .symbol ";" :: rest) :=
    levels_quiet (operand_call (called _) (longer ▸ given _ (by simp; omega) _)) ended.quiet
  simp [simpleStatement, read, expect]

mutual

/-- A statement is read up to anything but an `else`. -/
theorem statement_reads (stmt : Stmt) (depth : Nat) (fits : stmt.tokens.length ≤ depth)
    (rest : List Token) (noElse : rest.head? ≠ some (.keyword "else")) :
    statement depth (stmt.tokens ++ rest) = some (stmt.tree, rest) := by
  obtain ⟨inner, rfl⟩ : ∃ inner, depth = inner + 1 := by
    obtain ⟨first, more, begins, -⟩ := stmt.tokens_begin
    rw [begins, List.length_cons] at fits
    exact ⟨depth - 1, by omega⟩
  cases stmt with
  | block body =>
    rw [Stmt.tokens] at fits ⊢
    simp only [List.length_append, List.length_cons, List.length_nil] at fits
    have inside := statements_reads body inner (by omega) rest
    simp [statement, inside, Stmt.tree]
  | assign name value =>
    have read := assign_reads name value rest
    simp [Stmt.tokens, statement, read, Stmt.tree]
  | ifThen comparison lhs rhs ifTrue =>
    rw [Stmt.tokens, ifTokens] at fits ⊢
    simp only [List.length_append, List.length_cons, List.length_nil] at fits
    have header := condition_reads comparison lhs rhs (ifTrue.tokens ++ rest)
    have governed := statement_reads ifTrue inner (by omega) rest noElse
    simp [statement, header, governed, expect_none noElse, Stmt.tree]
  | ifElse comparison lhs rhs ifTrue ifFalse =>
    rw [Stmt.tokens, ifTokens] at fits ⊢
    simp only [List.length_append, List.length_cons, List.length_nil] at fits
    have header := condition_reads comparison lhs rhs (.symbol "\x7b" :: (bodyTokens ifTrue ++
      .symbol "\x7d" :: .keyword "else" :: (ifFalse.tokens ++ rest)))
    have front : statement inner (.symbol "\x7b" :: (bodyTokens ifTrue ++
        .symbol "\x7d" :: .keyword "else" :: (ifFalse.tokens ++ rest))) =
        some (.block (bodyTrees ifTrue), .keyword "else" :: (ifFalse.tokens ++ rest)) := by
      obtain ⟨innermost, rfl⟩ : ∃ innermost, inner = innermost + 1 := ⟨inner - 1, by omega⟩
      have inside := statements_reads ifTrue innermost (by omega)
        (.keyword "else" :: (ifFalse.tokens ++ rest))
      simp [statement, inside]
    have behind := statement_reads ifFalse inner (by omega) rest noElse
    simp [statement, header, front, behind, expect, Stmt.tree]
  | whileTrue body =>
    rw [Stmt.tokens, loopTokens] at fits ⊢
    simp only [List.length_append, List.length_cons, List.length_nil] at fits
    have header := loop_condition_reads (body.tokens ++ rest)
    have governed := statement_reads body inner (by omega) rest noElse
    simp [statement, header, governed, Stmt.tree]
  | leave => simp [Stmt.tokens, statement, expect, Stmt.tree]
  | println value =>
    have read := println_reads value rest
    simp [Stmt.tokens, statement, read, Stmt.tree]

/-- Statements are read up to a closing brace. -/
theorem statements_reads (body : List Stmt) (depth : Nat) (fits : (bodyTokens body).length < depth)
    (rest : List Token) :
    statements depth (bodyTokens body ++ .symbol "\x7d" :: rest) = some (bodyTrees body, rest) := by
  obtain ⟨inner, rfl⟩ : ∃ inner, depth = inner + 1 := ⟨depth - 1, by omega⟩
  cases body with
  | nil => simp [bodyTokens, statements, expect, bodyTrees]
  | cons stmt body =>
    rw [bodyTokens] at fits ⊢
    rw [List.length_append] at fits
    obtain ⟨first, more, begins, -, -, noClose⟩ := stmt.tokens_begin
    have filled : 0 < stmt.tokens.length := by simp [begins]
    have noElse := bodyTokens_begin body rest (.inl rfl)
    have front := statement_reads stmt inner (by omega) _ noElse
    have behind := statements_reads body inner (by omega) rest
    have opened : expect (.symbol "\x7d") (stmt.tokens ++ (bodyTokens body ++ .symbol "\x7d" :: rest)) =
        none := by simp [begins, expect, noClose]
    rw [List.append_assoc, statements, opened]
    simp [front, behind, bodyTrees]

end

/-- The lines of a statement are read as its tree. -/
theorem read_lines (alphabet : Alphabet) (layout : Layout) (stmt : Stmt) (depth : Nat)
    (named : ∀ name, stmt.Mentions name → alphabet.IsName name) :
    read alphabet (layout.render (stmt.lines depth)) = some stmt.tree := by
  have spelled : alphabet.tokens? (layout.render (stmt.lines depth)).toList = some stmt.tokens :=
    Alphabet.spells_stmt layout stmt depth named
  have parsed : statement stmt.tokens.length stmt.tokens = some (stmt.tree, []) := by
    have reads := statement_reads stmt stmt.tokens.length (Nat.le_refl _) [] (by simp)
    rwa [List.append_nil] at reads
  simp [read, spelled, parse, parsed]

/-- A statement in a block, its own if it is one. -/
def Tree.asBlock : Tree → Tree
  | .block body => .block body
  | other => .block [other]

end Java

namespace Stmt

mutual

/-- The Java tree that a statement is meant to have. -/
def javaTree : Stmt → Tree
  | block body => .block (bodyJavaTrees body)
  | assign name value => .assign name value.term
  | branch comparison lhs rhs ifTrue (block []) =>
    .ifThen (Java.test comparison lhs rhs) ifTrue.javaTree
  | branch comparison lhs rhs ifTrue ifFalse =>
    .ifElse (Java.test comparison lhs rhs) ifTrue.javaTree.asBlock ifFalse.javaTree
  | loop body => .whileLoop .truth body.javaTree
  | exit => .leave
  | print value => .perform (.call ["System", "out", "println"] [value.term])

/-- The trees of statements in sequence, up to the first that cannot complete. -/
def bodyJavaTrees : List Stmt → List Tree
  | [] => []
  | stmt :: rest => stmt.javaTree :: if stmt.ways.completes then bodyJavaTrees rest else []

end

private theorem braced_tree (stmt : Java.Stmt) :
    Tree.block (Java.bodyTrees stmt.braced) = stmt.tree.asBlock := by
  cases stmt <;> simp [Java.Stmt.braced, Java.bodyTrees, Java.Stmt.tree, Java.Tree.asBlock]

mutual

theorem toJava_tree (stmt : Stmt) : stmt.toJava.tree = stmt.javaTree := by
  cases stmt with
  | block body => rw [toJava_block, Java.Stmt.tree, javaTree, bodyToJava_trees body]
  | assign name value => rw [toJava_assign, Java.Stmt.tree, javaTree]
  | branch comparison lhs rhs ifTrue ifFalse =>
    by_cases empty : ifFalse = block []
    · subst empty
      rw [toJava_branch_empty, Java.Stmt.tree, javaTree, toJava_tree ifTrue]
    · rw [toJava_branch _ _ _ _ _ empty, Java.Stmt.tree, javaTree, braced_tree, toJava_tree ifTrue,
        toJava_tree ifFalse]
      exact empty
  | loop body => rw [toJava_loop, Java.Stmt.tree, javaTree, toJava_tree body]
  | exit => rw [toJava_exit, Java.Stmt.tree, javaTree]
  | print value => rw [toJava_print, Java.Stmt.tree, javaTree]

theorem bodyToJava_trees (body : List Stmt) :
    Java.bodyTrees (bodyToJava body) = bodyJavaTrees body := by
  cases body with
  | nil => rw [bodyToJava_nil, Java.bodyTrees, bodyJavaTrees]
  | cons stmt rest =>
    rw [bodyToJava_cons, Java.bodyTrees, bodyJavaTrees, toJava_tree stmt]
    split
    · rw [bodyToJava_trees rest]
    · rw [Java.bodyTrees]

end

/-- What is written for a statement reads back as the tree that the statement is meant to have. -/
theorem written_reads_back (alphabet : Java.Alphabet) (layout : Java.Layout) (stmt : Stmt) (depth : Nat)
    (named : ∀ name ∈ stmt.names, alphabet.IsName name) :
    Java.read alphabet (layout.render (stmt.toJava.lines depth)) = some stmt.javaTree := by
  rw [← toJava_tree]
  refine Java.read_lines alphabet layout stmt.toJava depth fun name mentions => ?_
  exact named name ((mem_names_iff stmt).mpr (toJava_mentions stmt mentions))

theorem power_test_reads_back :
    let stmt := branch .lt (.binary .add (.var "x") (.constant ⟨0x3FE0000000000000⟩))
      (.binary .pow (.var "y") (.constant ⟨0xC000000000000000⟩))
      (branch .ge (.var "y") (.var "x") exit (block []))
      (loop (block [print (.binary .div (.var "x") (.var "y")), exit, print (.var "x")]))
    ({} : Java.Layout).render (stmt.toJava.lines 1) =
        "    if ((x + 0.5) < Math.pow(y, -2.0))\n" ++
        "    \x7b\n" ++
        "        if (y >= x)\n" ++
        "            break;\n" ++
        "    \x7d\n" ++
        "    else\n" ++
        "        while (true)\n" ++
        "        \x7b\n" ++
        "            System.out.println((x / y));\n" ++
        "            break;\n" ++
        "        \x7d\n" ∧
      Java.read ⟨fun _ => false, fun _ => false⟩ (({} : Java.Layout).render (stmt.toJava.lines 1)) =
        some (.ifElse
          (.binary .less (.binary .plus (.name ["x"]) (.literal ⟨0x3FE0000000000000⟩))
            (.call ["Math", "pow"] [.name ["y"], .negative (.literal ⟨0x4000000000000000⟩)]))
          (.block [.ifThen (.binary .atLeast (.name ["y"]) (.name ["x"])) .leave])
          (.whileLoop .truth (.block [.perform (.call ["System", "out", "println"]
            [.binary .divided (.name ["x"]) (.name ["y"])]), .leave]))) := by
  intro stmt
  have letters : ∀ name, name = "x" ∨ name = "y" →
      Java.Alphabet.IsName ⟨fun _ => false, fun _ => false⟩ name := by
    rintro name (rfl | rfl)
    · exact Java.Alphabet.isName_of_letters _ (by simp) (by simp) (by simp [Java.reserved])
    · exact Java.Alphabet.isName_of_letters _ (by simp) (by simp) (by simp [Java.reserved])
  constructor
  · decide +kernel
  · refine written_reads_back _ {} stmt 1 fun name held => letters name ?_
    have mentions := (mem_names_iff _).mp held
    simp [stmt, Mentions, BodyMentions, Expr.Mentions] at mentions
    grind

end Stmt
end LoopLang
