import FormulaShell.Json.Document

namespace FormulaShell.Hosted

open FormulaShell.Json

structure Request where
  /-- Text of a JSON object that gives values to names. -/
  context : Option String
  expression : String
  deriving DecidableEq, Repr

def text? : Node → Option String
  | .text ps => string? ps
  | _ => none

def optionalText? : Node → Option (Option String)
  | .null => some none
  | n => (text? n).map some

def contextField : String := "context"

def expressionField : String := "expression"

def named (name : String) (ms : List (String × Node)) : List Node :=
  (ms.filter (·.1 == name)).map (·.2)

/-- Members of other names are ignored, values and all. -/
def Request.ofMembers? (ms : List (String × Node)) : Option Request :=
  match named contextField ms, named expressionField ms with
  | [], [e] => do some ⟨none, ← text? e⟩
  | [c], [e] => do some ⟨← optionalText? c, ← text? e⟩
  | _, _ => none

def Request.ofNode? : Node → Option Request
  | .object members => do
    ofMembers? (← members.mapM fun m => (string? m.1).map fun name => (name, m.2))
  | .array [c, e] => do some ⟨← optionalText? c, ← text? e⟩
  | _ => none

def Request.read? (s : String) : Option Request := (Node.read? s).bind ofNode?

end FormulaShell.Hosted
