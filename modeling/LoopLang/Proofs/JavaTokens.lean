/-! The tokens of Java. A text is cut into the longest pieces that can be one token, between which
blanks count for nothing. The pieces with which the rest of this library is concerned are names,
reserved words, decimal literals of doubles, and the signs of expressions and statements; a text
with any other piece in it, a comment for example, is refused rather than read. -/
namespace LoopLang.Java

/-- The characters beyond ASCII that identifiers may have, which Java leaves to a version of Unicode. Those that
it ignores in identifiers are not among them. -/
structure Alphabet where
  /-- Those that may stand anywhere in an identifier. -/
  letters : Char → Bool
  /-- Those that may stand behind the first character as well. -/
  followers : Char → Bool

/-- A token. -/
inductive Token where
  | name (text : String)
  | keyword (text : String)
  | number (text : String)
  | symbol (text : String)
deriving DecidableEq, Repr

/-- The words that are no names, the literals made of letters among them. -/
def reserved : List String :=
  ["abstract", "assert", "boolean", "break", "byte", "case", "catch", "char", "class", "const",
    "continue", "default", "do", "double", "else", "enum", "extends", "final", "finally", "float",
    "for", "goto", "if", "implements", "import", "instanceof", "int", "interface", "long", "native",
    "new", "package", "private", "protected", "public", "return", "short", "static", "strictfp",
    "super", "switch", "synchronized", "this", "throw", "throws", "transient", "try", "void",
    "volatile", "while", "_", "true", "false", "null"]

/-- The signs that are read. -/
def symbols : List String :=
  ["(", ")", "[", "]", "\x7b", "\x7d", ";", ",", ".", "=", "+", "-", "*", "/", "%", "<", ">", "<=",
    ">=", "==", "!="]

/-- The pieces of more than one sign. The last two begin a comment. -/
def joined : List (List Char) :=
  ["==", "<=", ">=", "!=", "&&", "||", "++", "--", "<<", ">>", ">>>", "+=", "-=", "*=", "/=", "&=",
    "|=", "^=", "%=", "<<=", ">>=", ">>>=", "->", "::", "//", "/*"].map String.toList

def isBlank (c : Char) : Bool := c == ' ' || c == '\t' || c == '\n' || c == '\r' || c == '\x0c'

/-- How far a decimal literal has got. -/
inductive Phase where
  | whole
  | fraction
  | mark
  | sign
  | power
deriving DecidableEq, Repr

def Phase.next : Phase → Char → Option Phase
  | whole, c =>
    if c.isDigit then some whole else if c == '.' then some fraction
    else if c == 'e' || c == 'E' then some mark else none
  | fraction, c =>
    if c.isDigit then some fraction else if c == 'e' || c == 'E' then some mark else none
  | mark, c => if c.isDigit then some power else if c == '+' || c == '-' then some sign else none
  | sign, c => if c.isDigit then some power else none
  | power, c => if c.isDigit then some power else none

/-- Whether digits and what follows them are a literal of a double: it has a point or an exponent. -/
def isDecimal (lexeme : List Char) : Bool :=
  match lexeme.foldlM Phase.next Phase.whole with
  | some .fraction => true
  | some .power => true
  | _ => false

namespace Alphabet
variable (alphabet : Alphabet)

/-- Whether a character may begin an identifier. -/
def starts (c : Char) : Bool :=
  if c.toNat < 128 then c.isAlpha || c == '_' || c == '$' else alphabet.letters c

/-- Whether a character may stand in an identifier. The control characters that Java ignores there are left
out, so that two names are the same only if they are spelled alike. -/
def holds (c : Char) : Bool :=
  if c.toNat < 128 then c.isAlphanum || c == '_' || c == '$'
  else alphabet.letters c || alphabet.followers c

/-- Whether a text is a name for a variable. -/
def IsName (text : String) : Prop :=
  ∃ first rest, text.toList = first :: rest ∧ alphabet.starts first = true ∧
    (∀ c ∈ rest, alphabet.holds c = true) ∧ text ∉ reserved

/-- Letters make a name in every alphabet, unless the word is reserved. -/
theorem isName_of_letters {word : String} (some : word.toList ≠ [])
    (letters : ∀ c ∈ word.toList, c.isAlpha = true) (free : word ∉ reserved) : alphabet.IsName word := by
  have plain {c : Char} (letter : c.isAlpha = true) : c.toNat < 128 := by
    change (decide (65 ≤ c.val ∧ c.val ≤ 90) || decide (97 ≤ c.val) && decide (c.val ≤ 122)) = true at letter
    simp [UInt32.le_iff_toNat_le] at letter
    omega
  obtain ⟨first, rest, spelled⟩ := List.exists_cons_of_ne_nil some
  rw [spelled] at letters
  refine ⟨first, rest, spelled, ?_, fun c held => ?_, free⟩
  · simp [starts, plain (letters first (.head _)), letters first (.head _)]
  · simp [holds, plain (letters c (.tail _ held)), Char.isAlphanum, letters c (.tail _ held)]

/-- Whether a character belongs to the piece before it. What begins like a number takes in every
letter, digit and point, and a sign behind the mark of an exponent. -/
def joins (lexeme : List Char) (c : Char) : Bool :=
  match lexeme with
  | [] => false
  | first :: _ =>
    if alphabet.starts first then alphabet.holds c
    else if first.isDigit then
      alphabet.holds c || c == '.' ||
        (c == '+' || c == '-') && (lexeme.getLast? == some 'e' || lexeme.getLast? == some 'E')
    else joined.contains (lexeme ++ [c])

/-- The pieces of a text, where the first piece has already begun. -/
def lexemesFrom (lexeme : List Char) : List Char → List (List Char)
  | [] => if lexeme.isEmpty then [] else [lexeme]
  | c :: rest =>
    if alphabet.joins lexeme c then lexemesFrom (lexeme ++ [c]) rest
    else
      let others := if isBlank c then lexemesFrom [] rest else lexemesFrom [c] rest
      if lexeme.isEmpty then others else lexeme :: others

/-- The token that a piece is. -/
def token? (lexeme : List Char) : Option Token :=
  match lexeme with
  | [] => none
  | first :: _ =>
    let text := String.ofList lexeme
    if alphabet.starts first then
      if reserved.contains text then some (.keyword text) else some (.name text)
    else if first.isDigit then
      if isDecimal lexeme then some (.number text) else none
    else if symbols.contains text then some (.symbol text) else none

/-- The tokens of a text, if all of it can be read. -/
def tokens? (text : List Char) : Option (List Token) :=
  (alphabet.lexemesFrom [] text).mapM alphabet.token?

end Alphabet
end LoopLang.Java
