import LoopLang.Java.Lines

/-! How lines become text. A layout says how wide an indentation is and how the class around a program
is called; nothing else about the text is open. -/
namespace LoopLang.Java

/-- The choices that leave a program's meaning alone. -/
structure Layout where
  /-- The blanks of one indentation. -/
  indentSize : Nat := 4
  /-- The name of the class around the program. -/
  className : String := "WordyProgram"
deriving DecidableEq, Repr

/-- The blanks before a line of the given depth; they are counted in 64 bits and stay at the
greatest count. -/
def Layout.indent (layout : Layout) (depth : Nat) : Nat :=
  min (depth * layout.indentSize) (UInt64.size - 1)

/-- Text that is written piece by piece. -/
structure Writer where
  text : String := ""

namespace Writer

/-- Adds a piece. -/
def write (writer : Writer) (piece : String) : Writer := ⟨writer.text ++ piece⟩

/-- Ends the line. -/
def newline (writer : Writer) : Writer := ⟨writer.text.push '\n'⟩

/-- Adds blanks. -/
def indent (writer : Writer) (blanks : Nat) : Writer := ⟨writer.text.pushn ' ' blanks⟩

/-- Whether nothing has been written. -/
def isEmpty (writer : Writer) : Bool := writer.text.isEmpty

/-- Adds a line with its indentation and its end. -/
def line (layout : Layout) (writer : Writer) (line : Line) : Writer :=
  ((writer.indent (layout.indent line.depth)).write line.text).newline

end Writer

/-- The text of lines. -/
def Layout.render (layout : Layout) (lines : List Line) : String :=
  (lines.foldl (Writer.line layout) {}).text

/-- A line with its indentation and its end. -/
def Layout.lineText (layout : Layout) (line : Line) : String :=
  String.ofList (List.replicate (layout.indent line.depth) ' ') ++ line.text ++ "\n"

private theorem pushn_eq (text : String) (blanks : Nat) :
    text.pushn ' ' blanks = text ++ String.ofList (List.replicate blanks ' ') := by
  induction blanks with
  | zero => simp [String.pushn, Nat.repeat]
  | succ blanks inside =>
    rw [String.pushn, Nat.repeat, ← String.pushn, inside]
    apply String.toList_inj.mp
    simp [List.replicate_succ']

/-- A line is written behind what was there before. -/
theorem Writer.text_line (layout : Layout) (writer : Writer) (line : Line) :
    (writer.line layout line).text = writer.text ++ layout.lineText line := by
  simp [Writer.line, Writer.newline, Writer.write, Writer.indent, Layout.lineText, pushn_eq,
    String.append_assoc, String.push_eq_append]

@[simp] theorem Layout.render_nil (layout : Layout) : layout.render [] = "" := rfl

/-- Lines are written one behind the other. -/
@[simp] theorem Layout.render_cons (layout : Layout) (line : Line) (rest : List Line) :
    layout.render (line :: rest) = layout.lineText line ++ layout.render rest := by
  have behind (lines : List Line) (writer : Writer) :
      (lines.foldl (Writer.line layout) writer).text = writer.text ++ layout.render lines := by
    induction lines generalizing writer with
    | nil => simp [Layout.render]
    | cons line rest inside =>
      rw [Layout.render, List.foldl_cons, List.foldl_cons, inside, inside (Writer.line layout {} line),
        Writer.text_line, Writer.text_line]
      simp [String.append_assoc]
  rw [Layout.render, List.foldl_cons, behind, Writer.text_line]
  simp

theorem Layout.render_append (layout : Layout) (lines more : List Line) :
    layout.render (lines ++ more) = layout.render lines ++ layout.render more := by
  induction lines with
  | nil => simp
  | cons line rest ih => simp [ih, String.append_assoc]

end LoopLang.Java
