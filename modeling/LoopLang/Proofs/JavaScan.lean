import LoopLang.Proofs.JavaTokens

/-! Cutting a text into tokens part by part. Blanks, brackets, commas and semicolons belong to no
longer piece, so where one of them meets another part of the text, each part keeps its own tokens. -/
namespace LoopLang.Java

/-- Whether a character is never a part of a longer piece. -/
def isLone (c : Char) : Bool :=
  isBlank c || c == '(' || c == ')' || c == '\x7b' || c == '\x7d' || c == ',' || c == ';'

namespace Alphabet
variable {alphabet : Alphabet} {lexeme text more rest : List Char} {tokens others : List Token}

private theorem lone_cases (alphabet : Alphabet) {c : Char} (lone : isLone c = true) :
    alphabet.starts c = false ∧ alphabet.holds c = false ∧ c.isDigit = false ∧
      (c == '.') = false ∧ (c == '+') = false ∧ (c == '-') = false := by
  simp only [isLone, isBlank, Bool.or_eq_true, beq_iff_eq] at lone
  rcases lone with ((((((((((rfl | rfl) | rfl) | rfl) | rfl) | rfl) | rfl) | rfl) | rfl) | rfl) | rfl) <;>
    simp [starts, holds]

private theorem joined_head : ∀ piece ∈ joined, ∀ c ∈ piece.head?, isLone c = false := by
  simp [joined, isLone, isBlank]

private theorem joined_last : ∀ piece ∈ joined, ∀ c ∈ piece.getLast?, isLone c = false := by
  simp [joined, isLone, isBlank]

private theorem joins_lone {c : Char} (lone : isLone c = true) (lexeme : List Char) :
    alphabet.joins lexeme c = false := by
  obtain ⟨-, holds, -, point, plus, minus⟩ := lone_cases alphabet lone
  cases lexeme with
  | nil => rfl
  | cons first more =>
    have none : joined.contains (first :: more ++ [c]) = false := by
      rw [← Bool.not_eq_true, List.contains_iff_mem]
      intro held
      exact Bool.noConfusion (lone.symm.trans (joined_last _ held c List.getLast?_concat))
    simp only [joins, holds, point, plus, minus, none]
    split <;> simp

private theorem lone_joins {c : Char} (lone : isLone c = true) (next : Char) :
    alphabet.joins [c] next = false := by
  obtain ⟨starts, -, digit, -⟩ := lone_cases alphabet lone
  have none : [c, next] ∉ joined := fun held =>
    Bool.noConfusion (lone.symm.trans (joined_head _ held c rfl))
  simp [joins, starts, digit, none]

/-! ### Pieces -/

/-- Every further character belongs to the piece before it. -/
def Grows (alphabet : Alphabet) (lexeme : List Char) : List Char → Prop
  | [] => True
  | c :: more => alphabet.joins lexeme c = true ∧ Grows alphabet (lexeme ++ [c]) more

theorem lexemesFrom_grows (grows : alphabet.Grows lexeme more) :
    alphabet.lexemesFrom lexeme (more ++ rest) = alphabet.lexemesFrom (lexeme ++ more) rest := by
  induction more generalizing lexeme with
  | nil => simp
  | cons c more ih =>
    obtain ⟨joins, grows⟩ := grows
    rw [List.cons_append, lexemesFrom, if_pos joins, ih grows]
    simp

/-- A piece ends before a character that does not belong to it. -/
theorem lexemesFrom_ends (ends : ∀ c ∈ rest.head?, alphabet.joins lexeme c = false) :
    alphabet.lexemesFrom lexeme rest =
      alphabet.lexemesFrom lexeme [] ++ alphabet.lexemesFrom [] rest := by
  cases rest with
  | nil => simp [lexemesFrom]
  | cons c rest =>
    have apart : alphabet.joins lexeme c = false := ends c rfl
    have alone : alphabet.joins [] c = false := rfl
    rw [lexemesFrom, lexemesFrom, lexemesFrom, apart, alone]
    cases lexeme <;> simp

/-- What ends a piece ends every piece behind any text, -/
theorem lexemesFrom_append {c : Char} (lone : isLone c = true) :
    alphabet.lexemesFrom lexeme (text ++ c :: rest) =
      alphabet.lexemesFrom lexeme text ++ alphabet.lexemesFrom [] (c :: rest) := by
  induction text generalizing lexeme with
  | nil =>
    refine lexemesFrom_ends fun next same => ?_
    cases same
    exact joins_lone lone lexeme
  | cons first text ih =>
    rw [List.cons_append, lexemesFrom, lexemesFrom]
    split
    · exact ih
    · split <;> split <;> simp only [ih, List.cons_append]

/-- Whether the parts of a text meet at a character that is never a part of a longer piece. -/
def isApart (text more : List Char) : Bool := text.getLast?.all isLone || more.head?.all isLone

theorem lexemesFrom_apart (apart : isApart text more = true) :
    alphabet.lexemesFrom [] (text ++ more) =
      alphabet.lexemesFrom [] text ++ alphabet.lexemesFrom [] more := by
  rcases Bool.or_eq_true_iff.mp apart with last | head
  · rcases List.eq_nil_or_concat text with rfl | ⟨text, c, rfl⟩
    · simp [lexemesFrom]
    · have lone : isLone c = true := by simpa using last
      have alone : alphabet.joins [] c = false := rfl
      have behind (rest : List Char) : alphabet.lexemesFrom [] (c :: rest) =
          alphabet.lexemesFrom [] [c] ++ alphabet.lexemesFrom [] rest := by
        rw [lexemesFrom, lexemesFrom, alone]
        cases isBlank c with
        | true => simp [lexemesFrom]
        | false => simpa using lexemesFrom_ends fun next _ => lone_joins lone next
      rw [List.concat_eq_append, List.append_assoc, List.singleton_append, lexemesFrom_append lone,
        lexemesFrom_append lone, behind, List.append_assoc]
  · cases more with
    | nil => simp [lexemesFrom]
    | cons c rest => exact lexemesFrom_append (by simpa using head)

theorem tokens?_apart (first : alphabet.tokens? text = some tokens)
    (second : alphabet.tokens? more = some others) (apart : isApart text more = true) :
    alphabet.tokens? (text ++ more) = some (tokens ++ others) := by
  rw [tokens?] at first second
  rw [tokens?, lexemesFrom_apart apart, List.mapM_append, first, second]
  rfl

/-! ### Names and literals -/

private theorem digit_cases (alphabet : Alphabet) {c : Char} (digit : c.isDigit = true) :
    isBlank c = false ∧ alphabet.starts c = false ∧ alphabet.holds c = true ∧
      alphabet.joins ['-'] c = false := by
  have bounds : 48 ≤ c.toNat ∧ c.toNat ≤ 57 := Char.isDigit_iff_toNat.mp digit
  have ascii : c.toNat < 128 := by omega
  have other {d : Char} (outside : d.toNat < 48 ∨ 57 < d.toNat) : c ≠ d := by
    rintro rfl
    omega
  have small : c.isAlpha = false := by
    change (decide (65 ≤ c.val ∧ c.val ≤ 90) || decide (97 ≤ c.val) && decide (c.val ≤ 122)) = false
    simp [UInt32.le_iff_toNat_le]
    omega
  refine ⟨?_, ?_, ?_, ?_⟩
  · simp [isBlank, other]
  · simp [starts, ascii, small, other]
  · simp [holds, ascii, Char.isAlphanum, digit]
  · simp [joins, starts, joined, other]

private theorem lexemesFrom_whole {first : Char} (visible : isBlank first = false)
    (grows : alphabet.Grows [first] more) :
    alphabet.lexemesFrom [] (first :: more) = [first :: more] := by
  have alone : alphabet.joins [] first = false := rfl
  have grown : alphabet.lexemesFrom [first] (more ++ []) = alphabet.lexemesFrom (first :: more) [] :=
    lexemesFrom_grows grows
  rw [List.append_nil] at grown
  simp [lexemesFrom, alone, visible, grown]

private theorem grows_of_holds {first : Char} (starts : alphabet.starts first = true)
    (held : ∀ c ∈ more, alphabet.holds c = true) (lexeme : List Char) :
    alphabet.Grows (first :: lexeme) more := by
  induction more generalizing lexeme with
  | nil => trivial
  | cons c more ih =>
    refine ⟨?_, ih (fun next later => held next (.tail _ later)) (lexeme ++ [c])⟩
    simp [joins, starts, held c (.head _)]

theorem tokens?_name {name : String} (is : alphabet.IsName name) :
    alphabet.tokens? name.toList = some [.name name] := by
  obtain ⟨first, more, spelled, starts, held, free⟩ := is
  have visible : isBlank first = false := by
    cases blank : isBlank first with
    | false => rfl
    | true =>
      have lone : isLone first = true := by simp [isLone, blank]
      exact Bool.noConfusion (starts.symm.trans (lone_cases alphabet lone).1)
  have whole := lexemesFrom_whole visible (grows_of_holds starts held [])
  have text : String.ofList (first :: more) = name := by rw [← spelled, String.ofList_toList]
  simp [tokens?, spelled, whole, token?, starts, text, free]

/-- What a decimal literal takes in next belongs to the piece before it. -/
private theorem Phase.next_cases {phase after : Phase} {c : Char}
    (next : phase.next c = some after) :
    (c.isDigit = true ∨ c = '.' ∨ c = 'e' ∨ c = 'E' ∨ (c = '+' ∨ c = '-') ∧ phase = .mark) ∧
      (after = .mark → c = 'e' ∨ c = 'E') := by
  cases phase <;> simp only [Phase.next] at next <;> grind

private theorem grows_of_phases {first : Char} (digit : first.isDigit = true) {phase last : Phase}
    {lexeme : List Char} (begun : lexeme.head? = some first)
    (marked : phase = .mark → lexeme.getLast? = some 'e' ∨ lexeme.getLast? = some 'E')
    (reads : more.foldlM Phase.next phase = some last) : alphabet.Grows lexeme more := by
  induction more generalizing lexeme phase with
  | nil => trivial
  | cons c more ih =>
    obtain ⟨after, next, reads⟩ := Option.bind_eq_some_iff.mp reads
    obtain ⟨kinds, markedAfter⟩ := Phase.next_cases next
    refine ⟨?_, ih (by simp [begun]) (fun mark => by simpa using markedAfter mark) reads⟩
    obtain ⟨rest, rfl⟩ : ∃ rest, lexeme = first :: rest := by
      cases lexeme with
      | nil => cases begun
      | cons _ rest => exact ⟨rest, by cases begun; rfl⟩
    have none : alphabet.starts first = false := (digit_cases alphabet digit).2.1
    simp only [joins, none, digit, Bool.false_eq_true, if_false, if_true]
    rcases kinds with digit | rfl | rfl | rfl | ⟨sign, mark⟩
    · simp [(digit_cases alphabet digit).2.2.1]
    · simp
    · simp [holds]
    · simp [holds]
    · rcases sign with rfl | rfl <;> rcases marked mark with last | last <;> simp [last]

private theorem decimal_phases {first : Char} (digit : first.isDigit = true)
    (decimal : isDecimal (first :: more) = true) :
    ∃ last, more.foldlM Phase.next .whole = some last := by
  have begun : Phase.next .whole first = some .whole := if_pos digit
  cases reads : more.foldlM Phase.next .whole with
  | some last => exact ⟨last, rfl⟩
  | none => simp [isDecimal, begun, reads] at decimal

private theorem lexemesFrom_decimal {first : Char} (digit : first.isDigit = true)
    (decimal : isDecimal (first :: more) = true) :
    alphabet.lexemesFrom [] (first :: more) = [first :: more] := by
  obtain ⟨last, reads⟩ := decimal_phases digit decimal
  exact lexemesFrom_whole (digit_cases alphabet digit).1
    (grows_of_phases digit rfl (fun mark => by cases mark) reads)

private theorem token?_decimal {first : Char} (digit : first.isDigit = true)
    (decimal : isDecimal (first :: more) = true) :
    alphabet.token? (first :: more) = some (.number (String.ofList (first :: more))) := by
  have none : alphabet.starts first = false := (digit_cases alphabet digit).2.1
  simp [token?, none, digit, decimal]

/-- A decimal literal is one token, -/
theorem tokens?_decimal {first : Char} (digit : first.isDigit = true)
    (decimal : isDecimal (first :: more) = true) :
    alphabet.tokens? (first :: more) = some [.number (String.ofList (first :: more))] := by
  simp [tokens?, lexemesFrom_decimal digit decimal, token?_decimal digit decimal]

/-- and a minus before it is another. -/
theorem tokens?_negative {first : Char} (digit : first.isDigit = true)
    (decimal : isDecimal (first :: more) = true) :
    alphabet.tokens? ('-' :: first :: more) =
      some [.symbol "-", .number (String.ofList (first :: more))] := by
  have apart : alphabet.joins ['-'] first = false := (digit_cases alphabet digit).2.2.2
  have minus : alphabet.lexemesFrom [] ('-' :: first :: more) =
      ['-'] :: alphabet.lexemesFrom [] (first :: more) := by
    have begun : alphabet.lexemesFrom [] ('-' :: first :: more) =
        alphabet.lexemesFrom ['-'] (first :: more) := rfl
    rw [begun, lexemesFrom_ends fun c same => by cases same; exact apart]
    rfl
  have sign : alphabet.token? ['-'] = some (.symbol "-") := by simp [token?, starts, symbols]
  simp [tokens?, minus, sign, lexemesFrom_decimal digit decimal, token?_decimal digit decimal]

end Alphabet
end LoopLang.Java
