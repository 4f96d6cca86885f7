import LoopLang.Java.Layout
import LoopLang.Node.Walk
import LoopLang.Stmt.StrayExit

/-! Whole Java programs. All variables are declared at the start of the only method and begin at zero,
so a Java compiler never finds one unset; the method's parameter, which Java demands, gets a name
that no variable has. -/
namespace LoopLang.Java

/-- The taken names that are not shorter than a name. -/
def notShorter (taken : List String) (name : String) : List String :=
  taken.filter fun other => decide (name.length ≤ other.length)

/-- With one more character a taken name leaves fewer of them, for it was one of them itself. -/
private theorem notShorter_push_lt {taken : List String} {name : String} (c : Char)
    (held : taken.contains name = true) :
    (notShorter taken (name.push c)).length < (notShorter taken name).length := by
  have narrowed : notShorter taken (name.push c) =
      (notShorter taken name).filter fun other => decide ((name.push c).length ≤ other.length) := by
    rw [notShorter, notShorter, List.filter_filter]
    refine List.filter_congr fun other _ => ?_
    rw [← Bool.decide_and, String.length_push]
    exact decide_eq_decide.mpr (by omega)
  rw [narrowed, List.length_filter_lt_length_iff_exists]
  refine ⟨name, List.mem_filter.mpr ⟨List.contains_iff_mem.mp held, by simp⟩, by simp⟩

/-- The name itself if it is not taken; else the search goes on with an underscore behind it. It comes to an end
because the name outgrows the taken ones, and may be evaluated by definition, as the rest of compilation may. -/
@[semireducible] def freeName (taken : List String) (name : String) : String :=
  if taken.contains name then freeName taken (name.push '_') else name
termination_by (notShorter taken name).length
decreasing_by exact notShorter_push_lt '_' ‹_›

/-- A class with one method. -/
structure Program where
  className : String
  /-- The method's parameter, which the body never uses. -/
  parameter : String
  /-- The variables to declare, in order. -/
  declared : List String
  /-- The statements after the declarations. -/
  body : List Stmt

namespace Program

/-- The lines of the declarations. -/
def declarations (program : Program) : List Line :=
  program.declared.map fun name => ⟨2, "double " ++ name ++ " = 0.0;"⟩

/-- The lines of the program. -/
def lines (program : Program) : List Line :=
  [⟨0, "public class " ++ program.className ++ " \x7b"⟩,
    ⟨1, "public static void main(String[] " ++ program.parameter ++ ") \x7b"⟩] ++
  program.declarations ++ bodyLines 2 program.body ++
  [⟨1, "\x7d"⟩, ⟨0, "\x7d"⟩]

end Program

end LoopLang.Java

namespace LoopLang.Stmt

/-- The name of a parameter that no variable of a program has: `args`, with as few underscores as
possible. -/
def freeParameter (names : List String) : String :=
  Java.freeName names "args"

/-- The Java program that does what a program does, in a class of the given name. -/
def toJavaProgram (className : String) (program : Stmt) : Java.Program where
  className := className
  parameter := freeParameter program.names
  declared := program.names
  body :=
    match program with
    | block body => bodyToJava body
    | _ => [program.toJava]

/-- The body of the Java program is what stands between braces when the one statement is put there. -/
theorem toJavaProgram_body (className : String) (program : Stmt) :
    (program.toJavaProgram className).body = program.toJava.braced := by
  cases program with
  | branch comparison lhs rhs ifTrue ifFalse =>
    by_cases empty : ifFalse = block []
    · simp [toJavaProgram, empty, Java.Stmt.braced]
    · simp [toJavaProgram, toJava_branch _ _ _ _ _ empty, Java.Stmt.braced]
  | _ => simp [toJavaProgram, Java.Stmt.braced]

/-- The text of the Java program. A program with an exit outside every loop has none. -/
def compile (layout : Java.Layout) (program : Stmt) : Except StrayExit String :=
  match program.strayExit? with
  | some stray => .error stray
  | none => .ok (layout.render (program.toJavaProgram layout.className).lines)

end LoopLang.Stmt
