import LoopLang.Proofs.JavaTokens
import LoopLang.Proofs.NumberText

/-! The grammar of Java for the statements and expressions in use. Binary operators group by
precedence and to the left, a header governs the one statement behind it, and an `else` belongs to
the nearest `if` that has none. A tree holds what its text stands for: the operator of each sign, by a
fixed table, and the double that the exact value of a literal rounds to. Names are kept as they are
spelled; parentheses leave no trace. -/
namespace LoopLang.Java

/-- The operators between two operands. -/
inductive Sign where
  | equal
  | unequal
  | less
  | atMost
  | greater
  | atLeast
  | plus
  | minus
  | times
  | divided
deriving DecidableEq, Repr

/-- How each operator is spelled. -/
def Sign.text : Sign → String
  | equal => "=="
  | unequal => "!="
  | less => "<"
  | atMost => "<="
  | greater => ">"
  | atLeast => ">="
  | plus => "+"
  | minus => "-"
  | times => "*"
  | divided => "/"

/-- No two operators are spelled alike. -/
theorem Sign.text_injective {sign other : Sign} (same : sign.text = other.text) : sign = other := by
  cases sign <;> cases other <;> simp [text] at same ⊢

/-- An expression as the grammar sees it. -/
inductive Term where
  /-- The literal `true`. -/
  | truth
  /-- A literal of a double. -/
  | literal (value : Number)
  /-- A variable or a field, with points between the parts. -/
  | name (parts : List String)
  | call (parts : List String) (arguments : List Term)
  | negative (operand : Term)
  | binary (sign : Sign) (lhs rhs : Term)

/-- A statement as the grammar sees it. -/
inductive Tree where
  | block (body : List Tree)
  | assign (name : String) (value : Term)
  /-- A call that stands alone. -/
  | perform (call : Term)
  | ifThen (test : Term) (ifTrue : Tree)
  | ifElse (test : Term) (ifTrue ifFalse : Tree)
  | whileLoop (test : Term) (body : Tree)
  | leave

/-! ### Literals -/

/-- A decimal literal stands for the double that its exact value rounds to. Java refuses a literal that is too
large for a finite double, and one that is not zero and rounds to it. -/
def StandsFor (text : String) (value : Number) : Prop :=
  ∃ exact magnitude, Numeral.magnitude? text.toList = some exact ∧
    value.meaning = .finite false magnitude ∧ magnitude.Covers exact ∧
    (magnitude.significand = 0 → exact = 0)

/-- It stands for one double only. -/
theorem StandsFor.unique {text : String} {value other : Number} (stands : StandsFor text value)
    (stands' : StandsFor text other) : value = other := by
  obtain ⟨exact, magnitude, reads, meant, covers, -⟩ := stands
  obtain ⟨exact', magnitude', reads', meant', covers', -⟩ := stands'
  cases reads.symm.trans reads'
  have same : magnitude = magnitude' :=
    Binary.covers_unique (Number.meaning_canonical meant) (Number.meaning_canonical meant') covers covers'
  subst same
  exact Number.eq_of_meaning (meant.trans meant'.symm) (by simp [meant])

noncomputable section

open Classical in
/-- The double that a decimal literal stands for, if there is one. -/
def literal? (text : String) : Option Number :=
  if stands : ∃ value, StandsFor text value then some stands.choose else none

theorem literal?_eq_some_iff {text : String} {value : Number} :
    literal? text = some value ↔ StandsFor text value := by
  unfold literal?
  split
  case isTrue stands =>
    rw [Option.some.injEq]
    exact ⟨fun same => same ▸ stands.choose_spec, fun stands' => stands.choose_spec.unique stands'⟩
  case isFalse none =>
    exact ⟨by rintro ⟨⟩, fun stands => absurd ⟨value, stands⟩ none⟩

/-! ### Expressions -/

/-- Reads something from the front of the tokens and hands back the others. -/
abbrev Reader (α : Type) := List Token → Option (α × List Token)

/-- The tokens behind an expected one. -/
def expect (token : Token) : List Token → Option (List Token)
  | [] => none
  | next :: rest => if next = token then some rest else none

/-- The part of a name behind each point. -/
def qualified (parts : List String) : List Token → List String × List Token
  | .symbol sign :: .name part :: rest =>
    if sign = "." then qualified (parts ++ [part]) rest
    else (parts, .symbol sign :: .name part :: rest)
  | rest => (parts, rest)

/-- The operator that stands in front, if it is one of these. -/
def oneOf (signs : List Sign) : Reader Sign
  | .symbol text :: rest => (signs.find? fun sign => sign.text == text).map fun sign => (sign, rest)
  | _ => none

/-- Operands with operators of one precedence between them, grouped to the left. -/
def chainFrom (signs : List Sign) (operand : Reader Term) : Nat → Term → Reader Term
  | 0, lhs, tokens => some (lhs, tokens)
  | count + 1, lhs, tokens =>
    match oneOf signs tokens with
    | some (sign, behind) => do
      let (rhs, rest) ← operand behind
      chainFrom signs operand count (.binary sign lhs rhs) rest
    | none => some (lhs, tokens)

def chain (signs : List Sign) (operand : Reader Term) : Reader Term := fun tokens => do
  let (first, rest) ← operand tokens
  chainFrom signs operand rest.length first rest

/-- The operators, from those that bind least to those that bind most. -/
def precedence : List (List Sign) :=
  [[.equal, .unequal], [.less, .atMost, .greater, .atLeast], [.plus, .minus], [.times, .divided]]

/-- An expression whose operands are read as given. -/
def expression (operand : Reader Term) : Reader Term := precedence.foldr chain operand

/-- Arguments up to the closing parenthesis, at least one. -/
def arguments (argument : Reader Term) : Nat → Reader (List Term)
  | 0, _ => none
  | count + 1, tokens => do
    let (first, rest) ← argument tokens
    match rest with
    | .symbol sign :: behind =>
      if sign = ")" then some ([first], behind)
      else if sign = "," then do
        let (others, rest) ← arguments argument count behind
        return (first :: others, rest)
      else none
    | _ => none

/-- An operand, nested no deeper than the given number. -/
def operand : Nat → Reader Term
  | 0, _ => none
  | depth + 1, tokens =>
    match tokens with
    | .number text :: rest => (literal? text).map fun value => (.literal value, rest)
    | .keyword text :: rest => if text = "true" then some (.truth, rest) else none
    | .name first :: rest =>
      let (parts, rest) := qualified [first] rest
      match expect (.symbol "(") rest with
      | some behind => do
        let (given, rest) ← arguments (expression (operand depth)) behind.length behind
        return (.call parts given, rest)
      | none => some (.name parts, rest)
    | .symbol sign :: rest =>
      if sign = "(" then do
        let (inner, rest) ← expression (operand depth) rest
        let rest ← expect (.symbol ")") rest
        return (inner, rest)
      else if sign = "-" then do
        let (inner, rest) ← operand depth rest
        return (.negative inner, rest)
      else none
    | [] => none

def term : Reader Term := fun tokens => expression (operand tokens.length) tokens

/-! ### Statements -/

/-- A condition in parentheses. -/
def condition : Reader Term := fun tokens => do
  let tokens ← expect (.symbol "(") tokens
  let (test, rest) ← term tokens
  let rest ← expect (.symbol ")") rest
  return (test, rest)

/-- An assignment or a call, up to its semicolon. -/
def simpleStatement : Reader Tree := fun tokens => do
  let (target, rest) ← term tokens
  match expect (.symbol "=") rest, target with
  | some behind, .name [name] => do
    let (value, rest) ← term behind
    let rest ← expect (.symbol ";") rest
    return (.assign name value, rest)
  | none, .call parts given => do
    let rest ← expect (.symbol ";") rest
    return (.perform (.call parts given), rest)
  | _, _ => none

mutual

/-- A statement, nested no deeper than the given number. An `else` behind it is part of it if it can
be, so that it goes to the nearest `if`. -/
def statement : Nat → Reader Tree
  | 0, _ => none
  | depth + 1, tokens =>
    match tokens with
    | .symbol sign :: rest =>
      if sign = "\x7b" then do
        let (body, rest) ← statements depth rest
        return (.block body, rest)
      else none
    | .keyword word :: rest =>
      if word = "if" then do
        let (test, rest) ← condition rest
        let (ifTrue, rest) ← statement depth rest
        match expect (.keyword "else") rest with
        | some behind => do
          let (ifFalse, rest) ← statement depth behind
          return (.ifElse test ifTrue ifFalse, rest)
        | none => return (.ifThen test ifTrue, rest)
      else if word = "while" then do
        let (test, rest) ← condition rest
        let (body, rest) ← statement depth rest
        return (.whileLoop test body, rest)
      else if word = "break" then do
        let rest ← expect (.symbol ";") rest
        return (.leave, rest)
      else none
    | _ => simpleStatement tokens

/-- Statements up to the closing brace. -/
def statements : Nat → Reader (List Tree)
  | 0, _ => none
  | count + 1, tokens =>
    match expect (.symbol "\x7d") tokens with
    | some behind => some ([], behind)
    | none => do
      let (first, rest) ← statement count tokens
      let (others, rest) ← statements count rest
      return (first :: others, rest)

end

/-- The statement that the tokens are, all of them taken together. -/
def parse (tokens : List Token) : Option Tree :=
  match statement tokens.length tokens with
  | some (tree, []) => some tree
  | _ => none

/-- The statement that a text is. -/
def read (alphabet : Alphabet) (text : String) : Option Tree :=
  (alphabet.tokens? text.toList).bind parse

/-! ### Programs -/

/-- A class with a method `main`, as the grammar sees it. -/
structure ProgramTree where
  className : String
  parameter : String
  /-- The variables and the values they begin with. -/
  declared : List (String × Term)
  body : List Tree

/-- The tokens behind several expected ones. -/
def expectAll : List Token → List Token → Option (List Token)
  | [], tokens => some tokens
  | token :: more, tokens => (expect token tokens).bind (expectAll more)

def identifier : Reader String
  | .name text :: rest => some (text, rest)
  | _ => none

/-- Declarations of doubles, up to anything else. -/
def declarations : Nat → Reader (List (String × Term))
  | 0, tokens => some ([], tokens)
  | count + 1, tokens =>
    match expect (.keyword "double") tokens with
    | none => some ([], tokens)
    | some rest => do
      let (name, rest) ← identifier rest
      let rest ← expect (.symbol "=") rest
      let (value, rest) ← term rest
      let rest ← expect (.symbol ";") rest
      let (others, rest) ← declarations count rest
      return ((name, value) :: others, rest)

/-- The program that the tokens are, all of them taken together. -/
def parseProgram (tokens : List Token) : Option ProgramTree := do
  let rest ← expectAll [.keyword "public", .keyword "class"] tokens
  let (className, rest) ← identifier rest
  let rest ← expectAll [.symbol "\x7b", .keyword "public", .keyword "static", .keyword "void",
    .name "main", .symbol "(", .name "String", .symbol "[", .symbol "]"] rest
  let (parameter, rest) ← identifier rest
  let rest ← expectAll [.symbol ")", .symbol "\x7b"] rest
  let (declared, rest) ← declarations rest.length rest
  let (body, rest) ← statements rest.length rest
  let rest ← expect (.symbol "\x7d") rest
  if rest.isEmpty then some ⟨className, parameter, declared, body⟩ else none

/-- The program that a text is. -/
def readProgram (alphabet : Alphabet) (text : String) : Option ProgramTree :=
  (alphabet.tokens? text.toList).bind parseProgram

end

end LoopLang.Java
