import FormulaShell.Script.Accumulator
import FormulaShell.Text.Position

namespace FormulaShell.Script

open FormulaShell.Text

/-- A line, or the reason why it can't be had. -/
abbrev Line := Except String (List Char)

def mainPrompt : String := "> "

def continuationPrompt : String := ""

def Accumulator.prompt (a : Accumulator) : String :=
  if a.isContinuing then continuationPrompt else mainPrompt

structure Reading where
  prompts : List String
  /-- No statement at the end of the input. -/
  result : Except String (Option (List Char))
  rest : List Line

def readOn (a : Accumulator) : List Line → Reading
  | [] => ⟨[a.prompt], .ok a.finish?, []⟩
  | .error reason :: rest => ⟨[a.prompt], .error reason, rest⟩
  | .ok line :: rest =>
    match a.feed line with
    | (_, some s) => ⟨[a.prompt], .ok (some s), rest⟩
    | (b, none) =>
      let r := readOn b rest
      { r with prompts := a.prompt :: r.prompts }

def readStatement (lines : List Line) : Reading := readOn .empty lines

theorem length_rest_readOn (a : Accumulator) (lines : List Line) :
    (readOn a lines).rest.length ≤ lines.length - 1 := by
  induction lines generalizing a with
  | nil => simp [readOn]
  | cons l rest ih =>
    cases l with
    | error e => simp [readOn]
    | ok line =>
      simp only [readOn]
      split
      · simp
      · rename_i b _
        have := ih b
        simp only [List.length_cons]
        omega

theorem length_rest_lt {lines : List Line} {s : List Char}
    (h : (readStatement lines).result = .ok (some s)) :
    (readStatement lines).rest.length < lines.length := by
  cases lines with
  | nil => simp [readStatement, readOn, Accumulator.finish?, Accumulator.empty, Scan.start] at h
  | cons l rest =>
    have := length_rest_readOn .empty (l :: rest)
    simp only [readStatement, List.length_cons] at this ⊢
    omega

def readAll (lines : List Line) : List Reading :=
  let r := readStatement lines
  match _h : r.result with
  | .ok (some _) => r :: readAll r.rest
  | _ => [r]
termination_by lines.length
decreasing_by exact length_rest_lt _h

def scriptLines (text : String) : List (List Char) :=
  (lines text.toList).map fun l => (l.reverse.dropWhile (· == '\r')).reverse

def withoutReturn (line : List Char) : List Char :=
  match line.reverse with
  | '\r' :: cs => cs.reverse
  | _ => line

def inputLines (text : String) : List Line :=
  (lines text.toList).map fun l => .ok (withoutReturn l)

end FormulaShell.Script
