import FormulaShell.Session.Directive
import FormulaShell.Session.Help
import FormulaShell.Session.Message
import FormulaShell.Value.Render
import FormulaShell.Workbook.Execution

namespace FormulaShell

open FormulaShell.Formula FormulaShell.Script

structure Options where
  alignTables : Bool
  deriving DecidableEq, Repr

def Options.set (o : Options) (name : OptionName) (value : Bool) : Options :=
  match name with
  | .formatTable => { o with alignTables := value }

structure Session where
  workbook : Workbook Directives
  startup : Options
  options : Options

structure Step where
  messages : List Message
  imports : List String
  exit : Bool

namespace Session

def optionsRecord : String := "Options"

/-- Each option under its own name, for use as an argument. -/
def optionNames : Value := .record (.ofList (OptionName.all.map fun o => (o.text, .text o.text)))

def freshWorkbook : Workbook Directives :=
  let w := Directive.hosts.foldl (fun w h => w.addHost h.1 h.2) Workbook.empty
  match (w.update optionsRecord optionNames []).1 with
  | .ok c => c.workbook
  | .error _ => w

def start (options : Options) : Session := ⟨freshWorkbook, options, options⟩

def reset (s : Session) : Session := start s.startup

def functionNames (s : Session) : List String := s.workbook.functionNames

def valueLine (options : Options) (name : String) (v : Value) : String :=
  name ++ ": " ++ v.render options.alignTables

def outcomeMessage (options : Options) : Outcome → Message
  | .shown v => .output (v.render options.alignTables)
  | .updated name v => .output (valueLine options name v)
  | .refused e => .failure e.message
  | .failed m => .failure m

def eventMessage (options : Options) (e : Recalculation) : Message :=
  match e.value with
  | .error m => .labeled e.name m
  | v => .output (valueLine options e.name v)

/-- The value of an expression is not shown if the expression has left directives. -/
def outcomeMessages (options : Options) (waiting : Directives) : Option Outcome → List Message
  | none => []
  | some (.shown v) => if waiting.isEmpty then [outcomeMessage options (.shown v)] else []
  | some o => [outcomeMessage options o]

def carryOut (p : Session × Step) (d : Directive) : Session × Step :=
  let (s, step) := p
  match d with
  | .help => (s, { step with messages := step.messages ++ [.output (Help.text s.functionNames)] })
  | .reset => (s.reset, step)
  | .exit => (s, { step with exit := true })
  | .setOption name value => ({ s with options := s.options.set name value }, step)
  | .importScript path => (s, { step with imports := step.imports ++ [path] })

/-- Runs a statement: its outcome, then the recalculations, all written under the options from
before it, then the directives. -/
def execute (s : Session) (source : List Char) (poll : Poll Directives) : Session × Step :=
  let (done, waiting) := s.workbook.execute (classify source) poll []
  let messages := outcomeMessages s.options waiting done.outcome
    ++ done.events.map (eventMessage s.options)
  waiting.foldl carryOut ({ s with workbook := done.workbook }, ⟨messages, [], false⟩)

end Session

end FormulaShell
