import FormulaShell.Script.Scan

namespace FormulaShell.Script

open FormulaShell.Text

structure Accumulator where
  text : List Char
  state : Scan
  deriving DecidableEq, Repr

/-- An equals sign, alone or before the head of an arrow. -/
def endsWithAssignment (code : List Char) : Bool :=
  match (code.reverse.dropWhile isBlank) with
  | '=' :: _ => true
  | '>' :: '=' :: _ => true
  | _ => false

namespace Accumulator

def empty : Accumulator := ⟨[], .start⟩

def isContinuing (a : Accumulator) : Bool := !a.text.isEmpty

def add (a : Accumulator) (line : List Char) : Accumulator :=
  ⟨a.text ++ line ++ ['\n'], a.state.run (line ++ ['\n'])⟩

def goesOn (a : Accumulator) (line : List Char) : Bool :=
  !line.all isBlank
    && ((a.add line).state.depth != 0 || endsWithAssignment (a.state.codeOf line))

/-- The lines so far, if there is anything useful in them. -/
def finish? (a : Accumulator) : Option (List Char) :=
  if a.state.useful = 0 then none else some a.text

def feed (a : Accumulator) (line : List Char) : Accumulator × Option (List Char) :=
  if a.goesOn line then (a.add line, none) else (empty, (a.add line).finish?)

end Accumulator

def statementsFrom (a : Accumulator) : List (List Char) → List (List Char)
  | [] => a.finish?.toList
  | line :: rest =>
    let (b, s) := a.feed line
    s.toList ++ statementsFrom b rest

def statements (lines : List (List Char)) : List (List Char) := statementsFrom .empty lines

end FormulaShell.Script
