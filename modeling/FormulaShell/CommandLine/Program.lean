import FormulaShell.CommandLine.Arguments
import FormulaShell.Hosted.Response
import FormulaShell.Shell.Transcript

namespace FormulaShell.CommandLine

open FormulaShell.Formula FormulaShell.Script

structure Surroundings (m : Type → Type) where
  file : Shell.Files m
  /-- All of the input, or the reason why it can't be read. -/
  input : m (Except String String)
  /-- Whether what shows the output shows colors. -/
  colored : Bool

structure Finished where
  status : Nat
  output : String
  errors : String
  deriving DecidableEq, Repr

def versionText : String := "fxrepl-rs 0.1.0\n"

def helpText : String := String.join [
  "Interactive REPL for a small Excel-like formula language.\n",
  "\n",
  "Usage: fxrepl [OPTIONS] [SCRIPTS]...\n",
  "\n",
  "Arguments:\n",
  "  [SCRIPTS]...  Scripts imported (with echo) before the interactive loop\n",
  "\n",
  "Options:\n",
  "      --batch                Exit after running the scripts instead of reading stdin\n",
  "      --no-format-tables     Render multi-column tables as `[\x7b..\x7d, ..]` instead of aligned columns\n",
  "      --no-color             Do not color error output\n",
  "      --eval-request <PATH>  Answer one JSON evaluation request read from PATH (`-` for stdin) and exit\n",
  "      --timeout-ms <MS>      Evaluation timeout for `--eval-request`, in milliseconds [default: 2000]\n",
  "  -h, --help                 Print help\n",
  "  -V, --version              Print version\n"]

def UsageError.message : UsageError → String
  | unknown argument => "unexpected argument '" ++ argument ++ "' found"
  | repeated name => "the argument '--" ++ name ++ "' cannot be used multiple times"
  | missingValue name => "a value is required for '--" ++ name ++ "' but none was supplied"
  | unexpectedValue name => "unexpected value for '--" ++ name ++ "' found; no more were expected"
  | badNumber text => "invalid value '" ++ text ++ "': not a number of milliseconds"

def UsageError.finished (e : UsageError) : Finished := ⟨2, "", "error: " ++ e.message ++ "\n"⟩

/-- No time at all is over at once, and any other time is taken to suffice. -/
def pollWithin (limit : Nat) : Poll Unit := .always (if limit = 0 then some .timedOut else none)

def inputPath : String := "-"

section

variable {m : Type → Type} [Monad m] (around : Surroundings m)

def requestText (path : String) : m (Except String String) := do
  if path = inputPath then around.input
  else return (← around.file path).mapError Shell.FileError.reason

def answerRequest (path : String) (limit : Nat) : m Finished := do
  match ← requestText around path with
  | .ok text => return ⟨0, Hosted.answer text (pollWithin limit) ++ "\n", ""⟩
  | .error reason => return ⟨1, "", "cannot read request " ++ path ++ ": " ++ reason ++ "\n"⟩

/-- An input that can't be read fails at its first line. -/
def linesOf : Except String String → List Line
  | .ok text => inputLines text
  | .error reason => [.error reason]

/-- A shell whose input is no terminal. It keeps no history. -/
def runShell (o : Shell.Settings) : m Finished := do
  let lines ← if o.batch then pure [] else linesOf <$> around.input
  let e ← Shell.run around.file o false lines
  return ⟨0, Shell.output (o.color && around.colored) e.events, Shell.reports e none⟩

def Command.perform : Command → m Finished
  | .help => pure ⟨0, helpText, ""⟩
  | .version => pure ⟨0, versionText, ""⟩
  | .answer path limit => answerRequest around path limit
  | .shell o => runShell around o

def program (arguments : List String) : m Finished :=
  match parse arguments with
  | .ok c => c.perform around
  | .error e => pure e.finished

end

end FormulaShell.CommandLine
