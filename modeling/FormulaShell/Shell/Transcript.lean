import FormulaShell.Shell.Run

namespace FormulaShell.Shell

open FormulaShell.Text

def banner : String :=
  "Formula REPL (Rust) 0.1.0\nEnter formulas.  Use \"Help()\" for details.\n"

def echoMark : String := ">> "

/-- Prompts are shown by the source of the lines, if at all. -/
def Event.write (color : Bool) : Event → String
  | prompt _ => ""
  | entry _ => ""
  | echo statement => echoMark ++ String.ofList (trimEnd statement) ++ "\n"
  | message m => m.write color

def output (color : Bool) (events : List Event) : String :=
  banner ++ String.join (events.map (Event.write color))

def prompts (events : List Event) : List String :=
  events.filterMap fun
    | .prompt text => some text
    | _ => none

def history (events : List Event) : List String :=
  events.filterMap fun
    | .entry statement => some (String.ofList statement)
    | _ => none

def inputReport : Option String → String
  | none => ""
  | some reason => "input error: " ++ reason ++ "\n"

def historyReport : Option String → String
  | none => ""
  | some reason => "failed to save history: " ++ reason ++ "\n"

def reports (e : Ended) (saving : Option String) : String :=
  inputReport e.failure ++ historyReport saving

end FormulaShell.Shell
