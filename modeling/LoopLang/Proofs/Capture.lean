import LoopLang.Proofs.ProgramText

/-! Names of classes. Java takes the first part of a name with points for a variable if there is one of
that name, and for a class only if there is none. Three classes stand in compiled programs: `System` where
something is printed, `Math` for a power, and `Double` for numbers without digits. The parameter is never
called like one of them. Variables keep the names that they have, so a variable that is called like one
takes the place of the class. -/
namespace LoopLang

namespace Java

/-- The name is the first part of several. -/
def Leads (name : String) (parts : List String) : Prop := ∃ field more, parts = name :: field :: more

mutual

/-- The name stands before a point in the expression. -/
def Term.HasQualifier (name : String) : Term → Prop
  | .truth => False
  | .literal _ => False
  | .name parts => Leads name parts
  | .call parts given => Leads name parts ∨ ArgumentsHaveQualifier name given
  | .negative operand => operand.HasQualifier name
  | .binary _ lhs rhs => lhs.HasQualifier name ∨ rhs.HasQualifier name

def ArgumentsHaveQualifier (name : String) : List Term → Prop
  | [] => False
  | first :: others => first.HasQualifier name ∨ ArgumentsHaveQualifier name others

end

mutual

/-- The name stands before a point in the statement. -/
def Tree.HasQualifier (name : String) : Tree → Prop
  | .block body => BodyHasQualifier name body
  | .assign _ value => value.HasQualifier name
  | .perform call => call.HasQualifier name
  | .ifThen test ifTrue => test.HasQualifier name ∨ ifTrue.HasQualifier name
  | .ifElse test ifTrue ifFalse =>
    test.HasQualifier name ∨ ifTrue.HasQualifier name ∨ ifFalse.HasQualifier name
  | .whileLoop test body => test.HasQualifier name ∨ body.HasQualifier name
  | .leave => False

def BodyHasQualifier (name : String) : List Tree → Prop
  | [] => False
  | first :: rest => first.HasQualifier name ∨ BodyHasQualifier name rest

end

namespace ProgramTree

/-- The variables of the method. -/
def locals (tree : ProgramTree) : List String := tree.parameter :: tree.declared.map (·.1)

/-- The name stands before a point somewhere in the method. -/
def HasQualifier (tree : ProgramTree) (name : String) : Prop :=
  (∃ declaration ∈ tree.declared, declaration.2.HasQualifier name) ∨ BodyHasQualifier name tree.body

/-- A name that is meant for a class is the name of a variable. -/
def Captures (tree : ProgramTree) (name : String) : Prop := name ∈ tree.locals ∧ tree.HasQualifier name

end ProgramTree

variable {name : String}

@[simp] theorem leads_cons_cons (first field : String) (more : List String) :
    Leads name (first :: field :: more) ↔ first = name := by
  simp [Leads]

@[simp] theorem not_leads_single (only : String) : ¬ Leads name [only] := by
  simp [Leads]

@[simp] theorem Tree.hasQualifier_asBlock (tree : Tree) :
    tree.asBlock.HasQualifier name ↔ tree.HasQualifier name := by
  cases tree <;> simp [asBlock, HasQualifier, BodyHasQualifier]

/-- Braces have no part in it. -/
private theorem Stmt.hasQualifier_braced (stmt : Stmt) :
    BodyHasQualifier name (bodyTrees stmt.braced) ↔ stmt.tree.HasQualifier name := by
  cases stmt <;> simp [braced, bodyTrees, tree, Tree.HasQualifier, BodyHasQualifier]

end Java

/-! ### Classes that a program needs -/

variable {name : String}

/-- The class stands in the Java text of the expression. -/
def Expr.NeedsClass (name : String) : Expr → Prop
  | .constant number => name = "Double" ∧ ∀ negative magnitude, number.meaning ≠ .finite negative magnitude
  | .var _ => False
  | .binary operator lhs rhs =>
    (name = "Math" ∧ operator = .pow) ∨ lhs.NeedsClass name ∨ rhs.NeedsClass name

namespace Stmt

mutual

/-- The class stands in the Java text of the statement. -/
def NeedsClass (name : String) : Stmt → Prop
  | block body => BodyNeedsClass name body
  | assign _ value => value.NeedsClass name
  | branch _ lhs rhs ifTrue ifFalse =>
    lhs.NeedsClass name ∨ rhs.NeedsClass name ∨ ifTrue.NeedsClass name ∨ ifFalse.NeedsClass name
  | loop body => body.NeedsClass name
  | exit => False
  | print value => name = "System" ∨ value.NeedsClass name

/-- The same for statements in sequence, up to the first one that cannot complete. -/
def BodyNeedsClass (name : String) : List Stmt → Prop
  | [] => False
  | stmt :: rest => stmt.NeedsClass name ∨ (stmt.ways.completes = true ∧ BodyNeedsClass name rest)

end

end Stmt

private theorem Java.hasQualifier_numberTerm (number : Number) :
    (Java.numberTerm number).HasQualifier name ↔
    name = "Double" ∧ ∀ negative magnitude, number.meaning ≠ .finite negative magnitude := by
  rw [Java.numberTerm]
  cases number.meaning with
  | nan => simp [Java.Term.HasQualifier, eq_comm]
  | infinite negative => cases negative <;> simp [Java.Term.HasQualifier, eq_comm]
  | finite negative magnitude => cases negative <;> simp [Java.Term.HasQualifier]

private theorem Expr.hasQualifier_term (expr : Expr) :
    expr.term.HasQualifier name ↔ expr.NeedsClass name := by
  induction expr with
  | constant number => exact Java.hasQualifier_numberTerm number
  | var other => simp [term, Java.Term.HasQualifier, NeedsClass]
  | binary operator lhs rhs left right =>
    cases operator with
    | pow =>
      simp [term, Operator.term, Java.Term.HasQualifier, Java.ArgumentsHaveQualifier, NeedsClass, left, right,
        eq_comm]
    | _ => simp [term, Operator.term, Java.Term.HasQualifier, NeedsClass, left, right]

private theorem Java.hasQualifier_test (comparison : Comparison) (lhs rhs : Expr) :
    (Java.test comparison lhs rhs).HasQualifier name ↔ lhs.NeedsClass name ∨ rhs.NeedsClass name := by
  simp [Java.test, Java.Term.HasQualifier, Expr.hasQualifier_term]

namespace Stmt

mutual

private theorem hasQualifier_javaTree (stmt : Stmt) :
    stmt.javaTree.HasQualifier name ↔ stmt.NeedsClass name := by
  cases stmt with
  | block body => exact hasQualifier_bodyJavaTrees body
  | assign target value => exact value.hasQualifier_term
  | branch comparison lhs rhs ifTrue ifFalse =>
    have inTrue := hasQualifier_javaTree ifTrue
    have inFalse := hasQualifier_javaTree ifFalse
    by_cases empty : ifFalse = block []
    · subst empty
      simp [javaTree, Java.Tree.HasQualifier, Java.hasQualifier_test, NeedsClass, BodyNeedsClass, inTrue,
        or_assoc]
    · rw [javaTree]
      · simp [Java.Tree.HasQualifier, Java.hasQualifier_test, NeedsClass, inTrue, inFalse, or_assoc]
      · exact empty
  | loop body =>
    have inside := hasQualifier_javaTree body
    simp [javaTree, Java.Tree.HasQualifier, Java.Term.HasQualifier, NeedsClass, inside]
  | exit => exact Iff.rfl
  | print value =>
    simp [javaTree, Java.Tree.HasQualifier, Java.Term.HasQualifier, Java.ArgumentsHaveQualifier, NeedsClass,
      value.hasQualifier_term, eq_comm]

private theorem hasQualifier_bodyJavaTrees (body : List Stmt) :
    Java.BodyHasQualifier name (bodyJavaTrees body) ↔ BodyNeedsClass name body := by
  cases body with
  | nil => exact Iff.rfl
  | cons stmt rest =>
    have first := hasQualifier_javaTree stmt
    have later := hasQualifier_bodyJavaTrees rest
    rw [bodyJavaTrees, Java.BodyHasQualifier, first, BodyNeedsClass, ← later]
    cases stmt.ways.completes <;> simp [Java.BodyHasQualifier]

end

/-- Before a point stand the names of the classes that the program needs. -/
private theorem bodyHasQualifier_tree (className : String) (program : Stmt) :
    Java.BodyHasQualifier name (program.toJavaProgram className).tree.body ↔ program.NeedsClass name := by
  rw [Java.Program.tree, toJavaProgram_body, Java.Stmt.hasQualifier_braced, toJava_tree,
    hasQualifier_javaTree]

theorem hasQualifier_tree (className : String) (program : Stmt) :
    (program.toJavaProgram className).tree.HasQualifier name ↔ program.NeedsClass name := by
  have declared : ¬ ∃ declaration ∈ (program.toJavaProgram className).tree.declared,
      declaration.2.HasQualifier name := by
    rintro ⟨declaration, held, qualifies⟩
    obtain ⟨other, -, rfl⟩ := List.mem_map.mp held
    exact qualifies
  rw [Java.ProgramTree.HasQualifier, or_iff_right declared, bodyHasQualifier_tree]

theorem locals_tree (className : String) (program : Stmt) :
    (program.toJavaProgram className).tree.locals = freeParameter program.names :: program.names := by
  simp [Java.ProgramTree.locals, Java.Program.tree, toJavaProgram, Function.comp_def]

/-- The classes that stand in compiled programs. -/
def classes : List String := ["System", "Math", "Double"]

end Stmt

private theorem Expr.needsClass_known (expr : Expr) (needs : expr.NeedsClass name) :
    name ∈ Stmt.classes := by
  induction expr with
  | constant number => simp [Stmt.classes, needs.1]
  | var other => exact needs.elim
  | binary operator lhs rhs left right =>
    rcases needs with ⟨rfl, -⟩ | inLeft | inRight
    · simp [Stmt.classes]
    · exact left inLeft
    · exact right inRight

namespace Stmt

mutual

theorem needsClass_known (stmt : Stmt) (needs : stmt.NeedsClass name) : name ∈ classes := by
  cases stmt with
  | block body => exact bodyNeedsClass_known body needs
  | assign target value => exact value.needsClass_known needs
  | branch comparison lhs rhs ifTrue ifFalse =>
    rcases needs with left | right | inTrue | inFalse
    · exact lhs.needsClass_known left
    · exact rhs.needsClass_known right
    · exact needsClass_known ifTrue inTrue
    · exact needsClass_known ifFalse inFalse
  | loop body => exact needsClass_known body needs
  | exit => exact needs.elim
  | print value =>
    rcases needs with rfl | inside
    · simp [classes]
    · exact value.needsClass_known inside

private theorem bodyNeedsClass_known (body : List Stmt) (needs : BodyNeedsClass name body) :
    name ∈ classes := by
  cases body with
  | nil => exact needs.elim
  | cons stmt rest =>
    rcases needs with first | ⟨-, later⟩
    · exact needsClass_known stmt first
    · exact bodyNeedsClass_known rest later

end

/-- The parameter is not called like one of them. -/
theorem freeParameter_no_class (names : List String) : freeParameter names ∉ classes := by
  obtain ⟨count, ends, -, -⟩ := Java.freeName_is_first names "args"
  have begins : ∀ word ∈ classes, word.toList.head? ≠ some 'a' := by decide
  intro held
  refine begins _ held ?_
  rw [freeParameter, ends, Java.toList_underscored]
  rfl

/-- In a compiled program the names that stand for classes are those of `System` where it prints, of `Math`
where it has a power, and of `Double` where it has a number without digits. A variable takes the place of
such a class if it has the name of the class, and in no other case; the parameter never does. -/
theorem captures_iff (alphabet : Java.Alphabet) (layout : Java.Layout) (program : Stmt) (text : String)
    (compiled : program.compile layout = .ok text) (named : ∀ name ∈ program.names, alphabet.IsName name) :
    let tree := (program.toJavaProgram layout.className).tree
    (alphabet.IsName layout.className → Java.readProgram alphabet text = some tree) ∧
    tree.locals = tree.parameter :: program.names ∧
    (∀ name, tree.HasQualifier name ↔ program.NeedsClass name) ∧
    (∀ name, program.NeedsClass name → name ∈ classes) ∧
    (∀ name, tree.Captures name ↔ program.Mentions name ∧ program.NeedsClass name) ∧
    ¬ tree.Captures tree.parameter := by
  intro tree
  have locals : tree.locals = freeParameter program.names :: program.names :=
    program.locals_tree layout.className
  have qualifiers (name : String) : tree.HasQualifier name ↔ program.NeedsClass name :=
    program.hasQualifier_tree layout.className
  have noParameter {name : String} (needs : program.NeedsClass name) : name ≠ freeParameter program.names := by
    rintro rfl
    exact freeParameter_no_class program.names (program.needsClass_known needs)
  refine ⟨fun called => compile_reads_back alphabet layout program text compiled called named, locals,
    qualifiers, fun name => program.needsClass_known, fun name => ?_, fun captured => ?_⟩
  · rw [Java.ProgramTree.Captures, locals, qualifiers, List.mem_cons, program.mem_names_iff]
    constructor
    · rintro ⟨parameter | mentions, needs⟩
      · exact absurd parameter (noParameter needs)
      · exact ⟨mentions, needs⟩
    · rintro ⟨mentions, needs⟩
      exact ⟨.inr mentions, needs⟩
  · exact noParameter ((qualifiers _).mp captured.2) rfl

/-- A power takes `Math` from a variable of this name; a variable called `Double` is in nobody's way. -/
theorem math_captured_double_free :
    let program := assign "Math" (.binary .pow (.var "Double") (.var "Double"))
    let tree := (program.toJavaProgram "WordyProgram").tree
    tree.Captures "Math" ∧ ¬ tree.Captures "Double" ∧ ¬ tree.Captures "args" := by
  intro program tree
  have named : ∀ name ∈ program.names, Java.Alphabet.IsName ⟨fun _ => false, fun _ => false⟩ name := by
    intro name held
    have mentions : name = "Math" ∨ name = "Double" := by
      simpa [program, Mentions, Expr.Mentions, eq_comm] using program.mem_names_iff.mp held
    rcases mentions with rfl | rfl
    · exact Java.Alphabet.isName_of_letters _ (by simp) (by simp) (by simp [Java.reserved])
    · exact Java.Alphabet.isName_of_letters _ (by simp) (by simp) (by simp [Java.reserved])
  obtain ⟨-, -, -, -, captures, parameter⟩ := captures_iff _ {} program _ rfl named
  refine ⟨(captures _).mpr ⟨.inl rfl, .inl ⟨rfl, rfl⟩⟩, fun captured => ?_, parameter⟩
  have needs := ((captures _).mp captured).2
  simp [program, NeedsClass, Expr.NeedsClass] at needs

/-- A variable called `System` stands where the class is meant, in a program that prints it. -/
theorem system_captured :
    let program := block [assign "System" (.constant ⟨0x3FF0000000000000⟩), print (.var "System")]
    ∃ tree, program.compile {} = .ok (
        "public class WordyProgram \x7b\n" ++
        "    public static void main(String[] args) \x7b\n" ++
        "        double System = 0.0;\n" ++
        "        System = 1.0;\n" ++
        "        System.out.println(System);\n" ++
        "    \x7d\n" ++
        "\x7d\n") ∧
      (∀ alphabet : Java.Alphabet, (∀ name ∈ program.names, alphabet.IsName name) ∧
        ∀ text, program.compile {} = .ok text → Java.readProgram alphabet text = some tree) ∧
      "System" ∈ tree.locals ∧ Java.BodyHasQualifier "System" tree.body := by
  intro program
  have named (alphabet : Java.Alphabet) : ∀ name ∈ program.names, alphabet.IsName name := by
    intro name held
    have mentions : "System" = name := by
      simpa [program, Mentions, BodyMentions, Expr.Mentions] using program.mem_names_iff.mp held
    subst mentions
    exact alphabet.isName_of_letters (by simp) (by simp) (by simp [Java.reserved])
  have called (alphabet : Java.Alphabet) : alphabet.IsName ({} : Java.Layout).className :=
    alphabet.isName_of_letters (by simp) (by simp) (by simp [Java.reserved])
  have mentioned : "System" ∈ program.names := program.mem_names_iff.mpr (.inl (.inl rfl))
  refine ⟨_, congrArg Except.ok (by decide +kernel : Java.Layout.render {} (program.toJavaProgram _).lines = _),
    fun alphabet => ⟨named alphabet, fun text compiled =>
      compile_reads_back alphabet {} program text compiled (called alphabet) (named alphabet)⟩, ?_, ?_⟩
  · rw [locals_tree]
    exact .tail _ mentioned
  · exact (bodyHasQualifier_tree _ program).mpr (.inr ⟨rfl, .inl (.inl rfl)⟩)

end Stmt
end LoopLang
