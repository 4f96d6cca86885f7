import LoopLang.Proofs.FreeNames
import LoopLang.Proofs.ReadBack

/-! Whole programs read back. Where the class and the variables have names that Java allows, so has the
parameter, and the grammar finds in the text the class with its method, every declaration, and the
statements behind them. -/
namespace LoopLang.Java

/-! ### The parameter -/

/-- However many underscores the name of the parameter gets, Java allows it. -/
private theorem Alphabet.isName_freeParameter (alphabet : Alphabet) (names : List String) :
    alphabet.IsName (LoopLang.Stmt.freeParameter names) := by
  obtain ⟨count, ends, -, -⟩ := freeName_is_first names "args"
  have spelled : (LoopLang.Stmt.freeParameter names).toList =
      'a' :: 'r' :: 'g' :: 's' :: List.replicate count '_' := by
    rw [LoopLang.Stmt.freeParameter, ends, toList_underscored]
    rfl
  refine ⟨'a', _, spelled, by simp [starts], ?_, ?_⟩
  · intro c held
    simp only [List.mem_cons, List.mem_replicate] at held
    rcases held with rfl | rfl | rfl | ⟨-, rfl⟩ <;> simp [holds]
  · have others : ∀ word ∈ reserved, word.toList.take 3 ≠ ['a', 'r', 'g'] := by simp [reserved]
    intro held
    exact others _ held (by simp [spelled])

namespace Program

/-- The tree of a program. -/
def tree (program : Program) : ProgramTree where
  className := program.className
  parameter := program.parameter
  declared := program.declared.map fun name => (name, .literal ⟨0⟩)
  body := bodyTrees program.body

/-- The tokens of declarations. -/
def declarationTokens : List String → List Token
  | [] => []
  | name :: rest =>
    [.keyword "double", .name name, .symbol "=", .number "0.0", .symbol ";"] ++ declarationTokens rest

/-- The tokens of a program. -/
def tokens (program : Program) : List Token :=
  [.keyword "public", .keyword "class", .name program.className, .symbol "\x7b"] ++
    ([.keyword "public", .keyword "static", .keyword "void", .name "main", .symbol "(",
      .name "String", .symbol "[", .symbol "]", .name program.parameter, .symbol ")", .symbol "\x7b"] ++
    (declarationTokens program.declared ++ (bodyTokens program.body ++
    [.symbol "\x7d", .symbol "\x7d"])))

variable {alphabet : Alphabet} {layout : Layout}

open Alphabet Spells in
private theorem spells_declarations (names : List String)
    (named : ∀ name ∈ names, alphabet.IsName name) :
    alphabet.Spells (layout.render (names.map fun name => ⟨2, "double " ++ name ++ " = 0.0;"⟩))
      (declarationTokens names) := by
  induction names with
  | nil =>
    rw [List.map_nil, declarationTokens]
    exact phrase (by simp [phrases])
  | cons name rest ih =>
    have begun : alphabet.Spells "double " [.keyword "double"] := phrase (by simp [phrases])
    have target : alphabet.Spells name [.name name] := tokens?_name (named name (.head _))
    have ended : alphabet.Spells " = 0.0;" [.symbol "=", .number "0.0", .symbol ";"] :=
      phrase (by simp [phrases])
    have declared := (begun.append target ?_).append ended ?_
    · exact under 2 declared (ih fun other held => named other (.tail _ held))
    · simp [isApart, isLone, isBlank]
    · simp [isApart, isLone, isBlank]

open Alphabet Spells in
/-- The lines of a program have the tokens of the program. -/
private theorem spells_lines (program : Program) (called : alphabet.IsName program.className)
    (parameter : alphabet.IsName program.parameter)
    (declared : ∀ name ∈ program.declared, alphabet.IsName name)
    (mentioned : ∀ name, BodyMentions name program.body → alphabet.IsName name) :
    alphabet.Spells (layout.render program.lines) program.tokens := by
  have classHeader : alphabet.Spells ("public class " ++ program.className ++ " \x7b")
      [.keyword "public", .keyword "class", .name program.className, .symbol "\x7b"] := by
    have begun : alphabet.Spells "public class " [.keyword "public", .keyword "class"] :=
      phrase (by simp [phrases])
    have opening : alphabet.Spells " \x7b" [.symbol "\x7b"] := phrase (by simp [phrases])
    refine (begun.append (tokens?_name called) ?_).append opening ?_ <;>
      simp [isApart, isLone, isBlank]
  have methodHeader : alphabet.Spells
      ("public static void main(String[] " ++ program.parameter ++ ") \x7b")
      [.keyword "public", .keyword "static", .keyword "void", .name "main", .symbol "(",
        .name "String", .symbol "[", .symbol "]", .name program.parameter, .symbol ")",
        .symbol "\x7b"] := by
    have begun : alphabet.Spells "public static void main(String[] "
        [.keyword "public", .keyword "static", .keyword "void", .name "main", .symbol "(",
          .name "String", .symbol "[", .symbol "]"] := phrase (by simp [phrases])
    have opening : alphabet.Spells ") \x7b" [.symbol ")", .symbol "\x7b"] :=
      phrase (by simp [phrases])
    refine (begun.append (tokens?_name parameter) ?_).append opening ?_ <;>
      simp [isApart, isLone, isBlank]
  have close : alphabet.Spells "\x7d" [.symbol "\x7d"] := phrase (by simp [phrases])
  have all := under 0 classHeader (under 1 methodHeader
    ((spells_declarations program.declared declared).lines
      ((spells_body layout program.body 2 mentioned).lines (under 1 close (line 0 close)))))
  rw [Program.lines, Program.declarations, tokens]
  simpa using all

/-- Declarations are read up to anything else. -/
private theorem declarations_reads (names : List String) (count : Nat)
    (enough : names.length < count)
    {rest : List Token} (stops : expect (.keyword "double") rest = none) :
    Java.declarations count (declarationTokens names ++ rest) =
      some (names.map fun name => (name, .literal ⟨0⟩), rest) := by
  obtain ⟨fewer, rfl⟩ : ∃ fewer, count = fewer + 1 := ⟨count - 1, by omega⟩
  induction names generalizing fewer with
  | nil => simp [declarationTokens, Java.declarations, stops]
  | cons name names ih =>
    rw [List.length_cons] at enough
    obtain ⟨fewest, rfl⟩ : ∃ fewest, fewer = fewest + 1 := ⟨fewer - 1, by omega⟩
    have others := ih fewest (by omega)
    have zero (behind : List Token) : term (.number "0.0" :: .symbol ";" :: behind) =
        some (.literal ⟨0⟩, .symbol ";" :: behind) := by
      have ended : Ended (.symbol ";" :: behind) := ⟨_, _, rfl, by simp⟩
      have reads (depth : Nat) : Reads (operand (depth + 1)) [.number "0.0"] (.literal ⟨0⟩) :=
        fun rest _ => by simp [operand, literal_zero]
      exact (reads _).expression ended
    rw [Java.declarations]
    simp [declarationTokens, expect, identifier, zero, others]

/-- The grammar finds the parts of a program. -/
private theorem parseProgram_tokens (program : Program) :
    parseProgram program.tokens = some program.tree := by
  have noType : expect (.keyword "double") (bodyTokens program.body ++ [.symbol "\x7d", .symbol "\x7d"]) =
      none := expect_none (bodyTokens_begin program.body _ (.inr rfl))
  have longer : program.declared.length ≤ (declarationTokens program.declared).length := by
    induction program.declared with
    | nil => exact Nat.zero_le _
    | cons name rest ih =>
      simp only [declarationTokens, List.length_append, List.length_cons]
      omega
  have declared (count : Nat) (enough : program.declared.length < count) :=
    declarations_reads program.declared count enough noType
  have body (count : Nat) (enough : (bodyTokens program.body).length < count) :=
    statements_reads program.body count enough [.symbol "\x7d"]
  rw [tokens, parseProgram]
  simp only [expectAll, expect, identifier, List.cons_append, List.nil_append, if_true,
    Option.bind_eq_bind, Option.bind_some]
  rw [declared _ (by simp; omega), Option.bind_some, body _ (by simp)]
  simp [tree]

/-- The text of a program reads back as the program. -/
theorem readProgram_render (alphabet : Alphabet) (layout : Layout) (program : Program)
    (called : alphabet.IsName program.className) (parameter : alphabet.IsName program.parameter)
    (declared : ∀ name ∈ program.declared, alphabet.IsName name)
    (mentioned : ∀ name, BodyMentions name program.body → alphabet.IsName name) :
    readProgram alphabet (layout.render program.lines) = some program.tree := by
  have spelled : alphabet.tokens? (layout.render program.lines).toList = some program.tokens :=
    spells_lines program called parameter declared mentioned
  rw [readProgram, spelled, Option.bind_some, parseProgram_tokens]

end Program
end LoopLang.Java

namespace LoopLang.Stmt

/-- The tree that a program is meant to have. Every variable begins at zero, and the statements of the program
follow, up to the first one that cannot complete. -/
def javaProgram (className : String) (program : Stmt) : Java.ProgramTree where
  className := className
  parameter := freeParameter program.names
  declared := program.names.map fun name => (name, .literal ⟨0⟩)
  body :=
    match program with
    | block body => bodyJavaTrees body
    | other => [other.javaTree]

theorem toJavaProgram_tree (className : String) (program : Stmt) :
    (program.toJavaProgram className).tree = program.javaProgram className := by
  have body : Java.bodyTrees (program.toJavaProgram className).body = (program.javaProgram className).body := by
    cases program with
    | block body => exact bodyToJava_trees body
    | _ => simp only [toJavaProgram, javaProgram, Java.bodyTrees, toJava_tree]
  rw [Java.Program.tree, body]
  rfl

/-- The text of a program that compiles is that of its Java program. -/
theorem compile_reads_back (alphabet : Java.Alphabet) (layout : Java.Layout) (program : Stmt)
    (text : String) (compiled : program.compile layout = .ok text)
    (called : alphabet.IsName layout.className)
    (named : ∀ name ∈ program.names, alphabet.IsName name) :
    Java.readProgram alphabet text = some (program.toJavaProgram layout.className).tree := by
  have written : text = layout.render (program.toJavaProgram layout.className).lines := by
    unfold compile at compiled
    split at compiled
    · cases compiled
    · exact (Except.ok.inj compiled).symm
  rw [written]
  refine Java.Program.readProgram_render alphabet layout _ called
    (alphabet.isName_freeParameter program.names) named ?_
  intro name mentions
  exact named name (mem_names_of_body mentions)

end LoopLang.Stmt
