import LoopLang.Proofs.Mentions

/-! The declarations of a Java program. They stand before the body and list each name that the source
assigns or reads, wherever it does so, once and in order. The body is written from a pruned program, which
may have lost some names but has not gained any, so a Java compiler finds all its variables declared. -/
namespace LoopLang
namespace Stmt

/-- The collected names are those that are assigned and those that are read. -/
theorem mem_names_iff_assigns_or_reads {program : Stmt} {name : String} :
    name ∈ program.names ↔ program.Assigns name ∨ program.Reads name := by
  rw [mem_names_iff, mentions_iff]

/-- The collected names are in strictly increasing order, so none of them comes twice. -/
theorem names_sorted (program : Stmt) : program.names.Pairwise (· < ·) :=
  program.names_increasing.imp fun increasing => compareOfLessAndEq_eq_lt.mp increasing

/-- What is written between the declarations and the last braces: the statements themselves if the program
is a block, and else the program as a statement. -/
def bodyText (layout : Java.Layout) : Stmt → String
  | block body => layout.render (Java.bodyLines 2 (bodyToJava body))
  | stmt => layout.render (stmt.toJava.lines 2)

private theorem render_body (layout : Java.Layout) (className : String) (program : Stmt) :
    layout.render (Java.bodyLines 2 (program.toJavaProgram className).body) = bodyText layout program := by
  cases program with
  | block body => rfl
  | _ => simp [toJavaProgram, bodyText]

/-- Every variable of a program that compiles is declared exactly once. The text is a header, a line for
each declaration, the statements of the program and two closing braces; the declared names are those
that the program assigns or reads anywhere, in strictly increasing order, and the statements that are
written use no other ones. -/
theorem variables_declared_once (layout : Java.Layout) (program : Stmt) (text : String)
    (compiled : program.compile layout = .ok text) :
    ∃ (parameter : String) (declared : List String),
      text = layout.render
            [⟨0, "public class " ++ layout.className ++ " \x7b"⟩,
              ⟨1, "public static void main(String[] " ++ parameter ++ ") \x7b"⟩] ++
          layout.render (declared.map fun name => ⟨2, "double " ++ name ++ " = 0.0;"⟩) ++
          layout.render (Java.bodyLines 2 (program.toJavaProgram layout.className).body) ++
          layout.render [⟨1, "\x7d"⟩, ⟨0, "\x7d"⟩] ∧
      layout.render (Java.bodyLines 2 (program.toJavaProgram layout.className).body) =
        bodyText layout program ∧
      (∀ name, name ∈ declared ↔ program.Assigns name ∨ program.Reads name) ∧
      declared.Pairwise (· < ·) ∧
      ∀ name, Java.BodyMentions name (program.toJavaProgram layout.className).body → name ∈ declared := by
  refine ⟨freeParameter program.names, program.names, ?_, render_body .., fun name => mem_names_iff_assigns_or_reads,
    names_sorted program, fun name => mem_names_of_body⟩
  rw [compile] at compiled
  split at compiled
  · cases compiled
  · cases compiled
    rw [Java.Program.lines]
    simp only [Java.Layout.render_append]
    rfl

/-- Names behind an exit are declared as well, although the statements with them are not written. -/
theorem unreachable_name_declared :
    let program := block [loop (block [exit, print (.var "z")]), assign "x" (.var "y")]
    let layout : Java.Layout := ⟨1, "P"⟩
    let text := "public class P \x7b\n public static void main(String[] args) \x7b\n  double x = 0.0;\n" ++
      "  double y = 0.0;\n  double z = 0.0;\n  while (true)\n  \x7b\n   break;\n  \x7d\n" ++
      "  x = y;\n \x7d\n\x7d\n"
    program.compile layout = .ok text ∧
    ∃ (parameter : String) (declared : List String),
      text = layout.render [⟨0, "public class P \x7b"⟩,
            ⟨1, "public static void main(String[] " ++ parameter ++ ") \x7b"⟩] ++
          layout.render (declared.map fun name => ⟨2, "double " ++ name ++ " = 0.0;"⟩) ++
          layout.render (Java.bodyLines 2 (program.toJavaProgram "P").body) ++
          layout.render [⟨1, "\x7d"⟩, ⟨0, "\x7d"⟩] ∧
      (∀ name, name ∈ declared ↔ name = "x" ∨ name = "y" ∨ name = "z") ∧ declared.Pairwise (· < ·) := by
  intro program layout text
  have compiled : program.compile layout = .ok text := congrArg Except.ok (by decide +kernel)
  obtain ⟨parameter, declared, parts, -, listed, sorted, -⟩ := variables_declared_once layout program text compiled
  refine ⟨compiled, parameter, declared, parts, fun name => (listed name).trans ?_, sorted⟩
  simp only [program, Assigns, BodyAssigns, Reads, BodyReads, Expr.Mentions]
  grind

end Stmt
end LoopLang
