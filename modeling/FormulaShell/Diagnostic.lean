namespace FormulaShell

structure Diagnostic where
  code : String
  message : String
  offset : Option Nat
  line : Option Nat
  column : Option Nat
  /-- The line of the source that the column is in. -/
  snippet : Option String
  deriving DecidableEq, Repr

namespace Diagnostic

/-- The place by line and column if both are known, else by offset. -/
def place (d : Diagnostic) : String :=
  match d.line, d.column, d.offset with
  | some l, some c, _ => " @line=" ++ toString l ++ ",col=" ++ toString c
  | _, _, some p => " @pos=" ++ toString p
  | _, _, none => ""

/-- A line with a caret under the column. -/
def caret (column : Nat) : String := String.ofList (List.replicate (column - 1) ' ' ++ ['^'])

def excerpt (d : Diagnostic) : String :=
  match d.snippet, d.column with
  | some s, some c => "\n" ++ s ++ "\n" ++ caret c
  | _, _ => ""

def text (d : Diagnostic) : String := "[" ++ d.code ++ "] " ++ d.message ++ d.place ++ d.excerpt

end Diagnostic

end FormulaShell
