import FormulaShell.Number.Text
import FormulaShell.Value.Basic

namespace FormulaShell

namespace Text

/-- Blanks fill a text up to a width of any size; a longer text stays as it is. -/
def padRight (width : Nat) (s : String) : String :=
  s ++ String.ofList (List.replicate (width - s.length) ' ')

def padLeft (width : Nat) (s : String) : String :=
  String.ofList (List.replicate (width - s.length) ' ') ++ s

def quoted (s : String) : String :=
  String.ofList ('"' :: s.toList.flatMap (fun c => if c = '"' then ['"', '"'] else [c]) ++ ['"'])

end Text

def boolText (b : Bool) : String := if b then "true" else "false"

def Value.cell : Value → String
  | blank => ""
  | error _ => "<error>"
  | boolean b => boolText b
  | number x => Number.text x
  | decimal d => d.text
  | text s => s
  | record _ => "<record>"
  | table _ => "<table>"
  | untyped _ => "<untyped>"

namespace Table

def cellAt (row : Record) (column : String) : String := ((row.get? column).map Value.cell).getD ""

def width (t : Table) (column : String) : Nat :=
  t.foldl (fun w row => max w (cellAt row column).length) column.length

def line (cells : List String) : String := String.intercalate " " cells

/-- A header, a line of equals signs and the rows, values to the right. -/
def layout (t : Table) : String :=
  let columns := t.columns.map fun c => (c, t.width c)
  let header := line (columns.map fun (c, w) => " " ++ Text.padRight w c ++ " ")
  let rule := line (columns.map fun (_, w) => String.ofList (List.replicate (w + 2) '='))
  let rows := t.map fun row =>
    line (columns.map fun (c, w) => " " ++ Text.padLeft w (cellAt row c) ++ " ")
  String.intercalate "\n" (header :: rule :: rows)

end Table

end FormulaShell
