import LoopLang.Number.Style

/-! Where printed lines go. Every printed text is followed by one newline, whatever it contains; only a
buffer keeps what was printed, so only a buffer has lines to give back. A line ends at a newline, and one
carriage return directly before it belongs to the line's end. Text after the last newline is a line of its
own, which keeps its carriage returns. -/
namespace LoopLang

namespace Lines

/-- A line without the carriage return at its end. -/
def withoutReturn (line : List Char) : List Char :=
  if line.getLast? = some '\r' then line.dropLast else line

/-- The lines of a text in order. -/
def split (text : List Char) : List (List Char) :=
  let pieces := text.splitOn '\n'
  let unended := pieces.getLast?.getD []
  pieces.dropLast.map withoutReturn ++ if unended.isEmpty then [] else [unended]

end Lines

/-- A place for printed lines. -/
inductive Printer where
  /-- The console; `pending` is what has been printed and not yet shown. -/
  | console (pending : String)
  /-- Keeps everything printed. -/
  | buffer (text : String)
  /-- Drops everything printed. -/
  | silent
deriving DecidableEq, Repr

namespace Printer

/-- Prints one line. -/
def println : Printer → String → Printer
  | console pending, line => console ((pending ++ line).push '\n')
  | buffer text, line => buffer ((text ++ line).push '\n')
  | silent, _ => silent

/-- The captured text; only a buffer captures any. -/
def output : Printer → String
  | buffer text => text
  | console _ | silent => ""

/-- Forgets the captured text. -/
def clear : Printer → Printer
  | buffer _ => buffer ""
  | console pending => console pending
  | silent => silent

/-- The captured lines in the order of printing. -/
def lines (printer : Printer) : List String :=
  (Lines.split printer.output.toList).map String.ofList

/-- What the console has to show. -/
def pending : Printer → String
  | console text => text
  | buffer _ | silent => ""

/-- The printer once the console has shown its text. -/
def flush : Printer → Printer
  | console _ => console ""
  | buffer text => buffer text
  | silent => silent

/-- Printed values are plain from a thousandth up to ten million, and else like `1.0E7`. -/
def numberStyle : Number.Style where
  plainFrom := -3
  plainUpTo := 6
  mark := 'E'
  padded := true
  nan := "NaN"
  infinity := "Infinity"
  minusInfinity := "-Infinity"

/-- The text that stands for a value when it is printed. -/
def valueText (value : Float) : String := (Number.ofFloat value).write numberStyle

end Printer
end LoopLang
