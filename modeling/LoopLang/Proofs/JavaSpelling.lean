import LoopLang.Java.Layout
import LoopLang.Proofs.JavaScan
import LoopLang.Proofs.Literals
import LoopLang.Proofs.Mentions

/-! The tokens of what is written. Whatever the layout, the text of a statement consists of the tokens
of its parts in order, and no two of them run into each other. -/
namespace LoopLang

/-- The tokens of the literal of a number. -/
def Java.numberTokens (number : Number) : List Java.Token :=
  match number.meaning with
  | .nan => [.name "Double", .symbol ".", .name "NaN"]
  | .infinite true => [.name "Double", .symbol ".", .name "NEGATIVE_INFINITY"]
  | .infinite false => [.name "Double", .symbol ".", .name "POSITIVE_INFINITY"]
  | .finite true magnitude =>
    [.symbol "-", .number (String.ofList (Java.numberStyle.digits magnitude))]
  | .finite false magnitude => [.number (String.ofList (Java.numberStyle.digits magnitude))]

/-- The tokens of an expression. -/
def Expr.tokens : Expr → List Java.Token
  | .constant number => Java.numberTokens number
  | .var name => [.name name]
  | .binary .pow lhs rhs =>
    [.name "Math", .symbol ".", .name "pow", .symbol "("] ++ lhs.tokens ++ [.symbol ","] ++
      rhs.tokens ++ [.symbol ")"]
  | .binary operator lhs rhs =>
    [.symbol "("] ++ lhs.tokens ++ [.symbol operator.symbol] ++ rhs.tokens ++ [.symbol ")"]

theorem Expr.tokens_binary {operator : Operator} {lhs rhs : Expr} (notPower : operator ≠ .pow) :
    (Expr.binary operator lhs rhs).tokens = [.symbol "("] ++ lhs.tokens ++
      [.symbol operator.symbol] ++ rhs.tokens ++ [.symbol ")"] := by
  rw [Expr.tokens]
  exact notPower

namespace Java

/-- The tokens of a header of a conditional. -/
def ifTokens (comparison : Comparison) (lhs rhs : Expr) : List Token :=
  [.keyword "if", .symbol "("] ++ lhs.tokens ++ [.symbol comparison.symbol] ++ rhs.tokens ++
    [.symbol ")"]

/-- The tokens of a header of an endless loop. -/
def loopTokens : List Token := [.keyword "while", .symbol "(", .keyword "true", .symbol ")"]

mutual

/-- The tokens of a statement. -/
def Stmt.tokens : Stmt → List Token
  | .block body => [.symbol "\x7b"] ++ bodyTokens body ++ [.symbol "\x7d"]
  | .assign name value => [.name name, .symbol "="] ++ value.tokens ++ [.symbol ";"]
  | .ifThen comparison lhs rhs ifTrue => ifTokens comparison lhs rhs ++ ifTrue.tokens
  | .ifElse comparison lhs rhs ifTrue ifFalse =>
    ifTokens comparison lhs rhs ++ [.symbol "\x7b"] ++ bodyTokens ifTrue ++ [.symbol "\x7d"] ++
      [.keyword "else"] ++ ifFalse.tokens
  | .whileTrue body => loopTokens ++ body.tokens
  | .leave => [.keyword "break", .symbol ";"]
  | .println value =>
    [.name "System", .symbol ".", .name "out", .symbol ".", .name "println", .symbol "("] ++
      value.tokens ++ [.symbol ")", .symbol ";"]

def bodyTokens : List Stmt → List Token
  | [] => []
  | stmt :: rest => stmt.tokens ++ bodyTokens rest

end

namespace Alphabet

/-- The tokens of the text. -/
def Spells (alphabet : Alphabet) (text : String) (tokens : List Token) : Prop :=
  alphabet.tokens? text.toList = some tokens

/-- The parts of texts that are always the same, and their tokens. -/
def phrases : List (String × List Token) :=
  [("", []), (" ", []), ("\n", []), ("(", [.symbol "("]), (")", [.symbol ")"]), (";", [.symbol ";"]),
    (", ", [.symbol ","]), (");", [.symbol ")", .symbol ";"]), (" = ", [.symbol "="]),
    ("\x7b", [.symbol "\x7b"]), ("\x7d", [.symbol "\x7d"]), ("else", [.keyword "else"]),
    ("if (", [.keyword "if", .symbol "("]), ("break;", [.keyword "break", .symbol ";"]),
    ("while (true)", [.keyword "while", .symbol "(", .keyword "true", .symbol ")"]),
    ("Math.pow(", [.name "Math", .symbol ".", .name "pow", .symbol "("]),
    ("System.out.println(", [.name "System", .symbol ".", .name "out", .symbol ".", .name "println",
      .symbol "("]),
    ("public class ", [.keyword "public", .keyword "class"]), (" \x7b", [.symbol "\x7b"]),
    ("public static void main(String[] ", [.keyword "public", .keyword "static", .keyword "void",
      .name "main", .symbol "(", .name "String", .symbol "[", .symbol "]"]),
    (") \x7b", [.symbol ")", .symbol "\x7b"]), ("double ", [.keyword "double"]),
    (" = 0.0;", [.symbol "=", .number "0.0", .symbol ";"]),
    ("Double.NaN", [.name "Double", .symbol ".", .name "NaN"]),
    ("Double.POSITIVE_INFINITY", [.name "Double", .symbol ".", .name "POSITIVE_INFINITY"]),
    ("Double.NEGATIVE_INFINITY", [.name "Double", .symbol ".", .name "NEGATIVE_INFINITY"])]

namespace Spells
variable {alphabet : Alphabet} {text more : String} {tokens others : List Token} {layout : Layout}

theorem phrase (held : (text, tokens) ∈ phrases) : alphabet.Spells text tokens := by
  have all : ∀ phrase ∈ phrases, alphabet.Spells phrase.1 phrase.2 := by
    simp [phrases, Spells, tokens?, lexemesFrom, joins, starts, holds, isBlank, joined, token?,
      reserved, symbols, isDecimal, Phase.next]
  exact all _ held

theorem operator (operator : Operator) (notPower : operator ≠ .pow) :
    alphabet.Spells operator.symbol [.symbol operator.symbol] := by
  cases operator <;>
    simp [Spells, Operator.symbol, tokens?, lexemesFrom, joins, starts, isBlank, token?, symbols] at notPower ⊢

theorem comparison (comparison : Comparison) :
    alphabet.Spells comparison.symbol [.symbol comparison.symbol] := by
  cases comparison <;>
    simp [Spells, Comparison.symbol, tokens?, lexemesFrom, joins, starts, isBlank, joined, token?,
      symbols]

theorem append (first : alphabet.Spells text tokens) (second : alphabet.Spells more others)
    (apart : isApart text.toList more.toList = true) :
    alphabet.Spells (text ++ more) (tokens ++ others) := by
  rw [Spells, String.toList_append]
  exact tokens?_apart first second apart

theorem number (number : Number) :
    alphabet.Spells (Java.literal number) (Java.numberTokens number) := by
  rw [Java.literal, Number.write, Java.numberTokens]
  cases number.meaning with
  | nan => exact phrase (by simp [phrases, Java.numberStyle])
  | infinite negative =>
    cases negative with
    | true => exact phrase (by simp [phrases, Java.numberStyle])
    | false => exact phrase (by simp [phrases, Java.numberStyle])
  | finite negative magnitude =>
    obtain ⟨first, rest, same, digit, decimal⟩ := Java.digits_isLiteral magnitude
    rw [same] at decimal
    cases negative with
    | true =>
      simp only [same, Spells, String.toList_ofList]
      exact tokens?_negative digit decimal
    | false =>
      simp only [same, Spells, String.toList_ofList]
      exact tokens?_decimal digit decimal

/-- Two operands around a sign, behind something that opens a parenthesis. -/
theorem operands {opening left sign right : String} {before first between second : List Token}
    (opens : alphabet.Spells opening before) (lone : opening.toList.getLast?.all isLone = true)
    (spellsLeft : alphabet.Spells left first) (spellsSign : alphabet.Spells sign between)
    (spellsRight : alphabet.Spells right second) :
    alphabet.Spells (opening ++ left ++ " " ++ sign ++ " " ++ right ++ ")")
      (before ++ first ++ between ++ second ++ [.symbol ")"]) := by
  have blank : alphabet.Spells " " [] := phrase (by simp [phrases])
  have close : alphabet.Spells ")" [.symbol ")"] := phrase (by simp [phrases])
  have front : alphabet.Spells (opening ++ left) (before ++ first) :=
    opens.append spellsLeft (by simp [isApart, lone])
  have middle : alphabet.Spells (opening ++ left ++ " " ++ sign ++ " ") (before ++ first ++ between) := by
    have signed := ((front.append blank ?_).append spellsSign ?_).append blank ?_
    · simpa using signed
    all_goals simp [isApart, isLone, isBlank]
  refine (middle.append spellsRight ?_).append close ?_ <;>
    simp [isApart, isLone, isBlank, List.getLast?_cons]

theorem expr (expr : Expr) (named : ∀ name, expr.Mentions name → alphabet.IsName name) :
    alphabet.Spells expr.javaText expr.tokens := by
  induction expr with
  | constant value =>
    rw [Expr.javaText_constant]
    exact number value
  | var name =>
    rw [Expr.javaText_var]
    exact tokens?_name (named name rfl)
  | binary operator lhs rhs left right =>
    replace left := left fun name inside => named name (.inl inside)
    replace right := right fun name inside => named name (.inr inside)
    by_cases power : operator = .pow
    · subst power
      have opening : alphabet.Spells "Math.pow("
          [.name "Math", .symbol ".", .name "pow", .symbol "("] := phrase (by simp [phrases])
      have comma : alphabet.Spells ", " [.symbol ","] := phrase (by simp [phrases])
      have close : alphabet.Spells ")" [.symbol ")"] := phrase (by simp [phrases])
      rw [Expr.javaText_pow]
      refine .append (.append (.append (.append opening left ?_) comma ?_) right ?_) close ?_ <;>
        simp [isApart, isLone, isBlank, List.getLast?_cons]
    · have opening : alphabet.Spells "(" [.symbol "("] := phrase (by simp [phrases])
      rw [Expr.javaText_binary operator lhs rhs power, Expr.tokens_binary power]
      exact opening.operands (by simp [isLone]) left (Spells.operator operator power) right

theorem header (comparison : Comparison) (lhs rhs : Expr)
    (namedLeft : ∀ name, lhs.Mentions name → alphabet.IsName name)
    (namedRight : ∀ name, rhs.Mentions name → alphabet.IsName name) :
    alphabet.Spells (Java.ifHeader comparison lhs rhs) (ifTokens comparison lhs rhs) := by
  have opening : alphabet.Spells "if (" [.keyword "if", .symbol "("] := phrase (by simp [phrases])
  rw [ifHeader_eq]
  exact opening.operands (by simp [isLone]) (expr lhs namedLeft) (Spells.comparison comparison)
    (expr rhs namedRight)

/-- A line has the tokens of its text, -/
theorem line (depth : Nat) (spells : alphabet.Spells text tokens) :
    alphabet.Spells (layout.render [⟨depth, text⟩]) tokens := by
  have indented (blanks : Nat) : alphabet.Spells (String.ofList (List.replicate blanks ' ')) [] := by
    induction blanks with
    | zero => exact phrase (by simp [phrases])
    | succ blanks ih =>
      have blank : alphabet.Spells " " [] := phrase (by simp [phrases])
      rw [List.replicate_succ, ← List.singleton_append, String.ofList_append]
      exact blank.append ih (by simp [isApart, isLone, isBlank])
  have ended : alphabet.Spells "\n" [] := phrase (by simp [phrases])
  have apart (blanks : Nat) : isApart (List.replicate blanks ' ') text.toList = true := by
    cases blanks <;> simp [isApart, isLone, isBlank, List.getLast?_replicate]
  rw [Layout.render_cons, Layout.render_nil, Layout.lineText, String.append_empty]
  have whole := ((indented (layout.indent depth)).append spells (by simpa using apart _)).append ended ?_
  · simpa using whole
  · simp [isApart, isLone, isBlank]

private theorem render_last (lines : List Line) :
    (layout.render lines).toList.getLast?.all isLone = true := by
  induction lines with
  | nil => simp
  | cons line rest ih =>
    rw [Layout.render_cons, String.toList_append, List.getLast?_append]
    cases last : (layout.render rest).toList.getLast? with
    | some c => simpa [last] using ih
    | none => simp [Layout.lineText, isLone, isBlank]

/-- and lines in sequence have theirs in sequence. -/
theorem lines {first second : List Line} (front : alphabet.Spells (layout.render first) tokens)
    (behind : alphabet.Spells (layout.render second) others) :
    alphabet.Spells (layout.render (first ++ second)) (tokens ++ others) := by
  rw [Layout.render_append]
  exact front.append behind (by simp [isApart, render_last])

theorem under {lines : List Line} (depth : Nat) (header : alphabet.Spells text tokens)
    (behind : alphabet.Spells (layout.render lines) others) :
    alphabet.Spells (layout.render (⟨depth, text⟩ :: lines)) (tokens ++ others) := by
  rw [← List.singleton_append]
  exact (line depth header).lines behind

end Spells

variable {alphabet : Alphabet}

open Spells in
mutual

/-- The lines of a statement have the tokens of the statement. -/
theorem spells_stmt (layout : Layout) (stmt : Stmt) (depth : Nat)
    (named : ∀ name, stmt.Mentions name → alphabet.IsName name) :
    alphabet.Spells (layout.render (stmt.lines depth)) stmt.tokens := by
  have opening : alphabet.Spells "\x7b" [.symbol "\x7b"] := phrase (by simp [phrases])
  have close : alphabet.Spells "\x7d" [.symbol "\x7d"] := phrase (by simp [phrases])
  cases stmt with
  | block body =>
    have inside := spells_body layout body (depth + 1) named
    rw [Stmt.lines_block, Stmt.tokens]
    exact (under depth opening inside).lines (line depth close)
  | assign name value =>
    have target : alphabet.Spells name [.name name] := tokens?_name (named name (.inl rfl))
    have sign : alphabet.Spells " = " [.symbol "="] := phrase (by simp [phrases])
    have ended : alphabet.Spells ";" [.symbol ";"] := phrase (by simp [phrases])
    rw [Stmt.lines_assign, Stmt.tokens]
    refine line depth (.append (.append (.append target sign ?_) (expr value ?_) ?_) ended ?_)
    · simp [isApart, isLone, isBlank]
    · exact fun name inside => named name (.inr inside)
    · simp [isApart, isLone, isBlank, List.getLast?_cons]
    · simp [isApart, isLone]
  | ifThen comparison lhs rhs ifTrue =>
    have header := header comparison lhs rhs (fun name inside => named name (.inl inside))
      fun name inside => named name (.inr (.inl inside))
    have behind := spells_stmt layout ifTrue (ifTrue.depthUnder depth)
      fun name inside => named name (.inr (.inr inside))
    rw [Stmt.lines_ifThen, Stmt.tokens]
    exact under depth header behind
  | ifElse comparison lhs rhs ifTrue ifFalse =>
    have header := header comparison lhs rhs (fun name inside => named name (.inl inside))
      fun name inside => named name (.inr (.inl inside))
    have front := spells_body layout ifTrue (depth + 1)
      fun name inside => named name (.inr (.inr (.inl inside)))
    have otherwise : alphabet.Spells "else" [.keyword "else"] := phrase (by simp [phrases])
    have behind := spells_stmt layout ifFalse (ifFalse.depthUnder depth)
      fun name inside => named name (.inr (.inr (.inr inside)))
    have all := (under depth header (under depth opening front)).lines
      (under depth close (under depth otherwise behind))
    rw [Stmt.lines_ifElse, Stmt.tokens]
    simpa using all
  | whileTrue body =>
    have header : alphabet.Spells loopHeader loopTokens :=
      phrase (by simp [phrases, loopHeader, loopTokens])
    have behind := spells_stmt layout body (body.depthUnder depth) named
    rw [Stmt.lines_whileTrue, Stmt.tokens]
    exact under depth header behind
  | leave =>
    rw [Stmt.lines_leave, Stmt.tokens]
    exact line depth (phrase (by simp [phrases]))
  | println value =>
    have begun : alphabet.Spells "System.out.println("
        [.name "System", .symbol ".", .name "out", .symbol ".", .name "println", .symbol "("] :=
      phrase (by simp [phrases])
    have ended : alphabet.Spells ");" [.symbol ")", .symbol ";"] := phrase (by simp [phrases])
    rw [Stmt.lines_println, Stmt.tokens]
    refine line depth (.append (.append begun (expr value named) ?_) ended ?_) <;>
      simp [isApart, isLone]

theorem spells_body (layout : Layout) (body : List Stmt) (depth : Nat)
    (named : ∀ name, BodyMentions name body → alphabet.IsName name) :
    alphabet.Spells (layout.render (bodyLines depth body)) (bodyTokens body) := by
  cases body with
  | nil =>
    rw [bodyLines_nil, bodyTokens]
    exact phrase (by simp [phrases])
  | cons stmt rest =>
    rw [bodyLines_cons, bodyTokens]
    exact lines (spells_stmt layout stmt depth fun name inside => named name (.inl inside))
      (spells_body layout rest depth fun name inside => named name (.inr inside))

end

end Alphabet
end Java
end LoopLang
