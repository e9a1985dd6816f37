import FormulaShell.Script.Reading
import FormulaShell.Session.Basic

namespace FormulaShell.Shell

open FormulaShell.Formula FormulaShell.Script FormulaShell.Text

/-- What happens at a shell, in order. -/
inductive Event where
  | prompt (text : String)
  /-- A statement for the history. -/
  | entry (statement : List Char)
  | echo (statement : List Char)
  | message (m : Message)
  deriving DecidableEq, Repr

inductive FileError where
  | notFound
  | unreadable (reason : String)
  deriving DecidableEq, Repr

def FileError.reason : FileError → String
  | notFound => "No such file or directory (os error 2)"
  | unreadable reason => reason

abbrev Files (m : Type → Type) := String → m (Except FileError String)

structure Course where
  session : Session
  events : List Event
  exit : Bool

/-- How many imports may enclose one another. -/
def maxImportDepth : Nat := 8

def importFailure (path : String) : FileError → String
  | .notFound => "File not found: " ++ path
  | .unreadable reason => "Could not read " ++ path ++ ": " ++ reason

def tooManyImports (path : String) : String :=
  "Import nesting is limited to " ++ toString maxImportDepth ++ " levels: " ++ path

def failed (s : Session) (text : String) : Course := ⟨s, [.message (.failure text)], false⟩

section

variable {m : Type → Type} [Monad m]

/-- Takes up where `c` ends, unless it is an exit. -/
def Course.next (c : Course) (f : Session → m Course) : m Course :=
  if c.exit then pure c
  else do
    let d ← f c.session
    pure { d with events := c.events ++ d.events }

def inOrder {α : Type} (f : α → Session → m Course) : List α → Session → m Course
  | [], s => pure ⟨s, [], false⟩
  | a :: rest, s => do (← f a s).next (inOrder f rest)

def runStatement (load : String → Session → m Course) (shown : Event) (statement : List Char)
    (s : Session) : m Course := do
  let (s, step) := s.execute statement .never
  let c ← inOrder load step.imports s
  pure ⟨c.session, shown :: step.messages.map .message ++ c.events, c.exit || step.exit⟩

/-- Runs the script at a path, with so many imports still allowed. -/
def load (files : Files m) : Nat → String → Session → m Course
  | 0, path, s => pure (failed s (tooManyImports path))
  | depth + 1, path, s => do
    match ← files path with
    | .error e => pure (failed s (importFailure path e))
    | .ok text =>
      inOrder (fun statement => runStatement (load files depth) (.echo statement) statement)
        (statements (scriptLines text)) s

def loadAll (files : Files m) (paths : List String) (s : Session) : m Course :=
  inOrder (load files maxImportDepth) paths s

structure Ended where
  events : List Event
  failure : Option String
  unread : List Line

def given (interactive : Bool) (statement : List Char) : Event :=
  if interactive then .entry statement else .echo statement

def converse (files : Files m) (interactive : Bool) (lines : List Line) (s : Session) : m Ended :=
  let r := readStatement lines
  let asked := r.prompts.map .prompt
  match _h : r.result with
  | .error reason => pure ⟨asked, some reason, r.rest⟩
  | .ok none => pure ⟨asked, none, r.rest⟩
  | .ok (some statement) => do
    let c ← runStatement (load files maxImportDepth) (given interactive statement) statement s
    let before := asked ++ c.events
    if c.exit then pure ⟨before, none, r.rest⟩
    else
      let e ← converse files interactive r.rest c.session
      pure { e with events := before ++ e.events }
termination_by lines.length
decreasing_by exact length_rest_lt _h

structure Settings where
  alignTables : Bool
  color : Bool
  scripts : List String
  /-- Whether to stop after the scripts. -/
  batch : Bool
  deriving DecidableEq, Repr

def Settings.session (o : Settings) : Session := .start ⟨o.alignTables⟩

def run (files : Files m) (o : Settings) (interactive : Bool) (lines : List Line) : m Ended := do
  let c ← loadAll files o.scripts o.session
  if c.exit || o.batch then pure ⟨c.events, none, lines⟩
  else
    let e ← converse files interactive lines c.session
    pure { e with events := c.events ++ e.events }

end

end FormulaShell.Shell
