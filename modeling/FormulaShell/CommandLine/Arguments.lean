import FormulaShell.Shell.Run
import FormulaShell.Number.Read

namespace FormulaShell.CommandLine

open FormulaShell.Text

inductive Command where
  | shell (settings : Shell.Settings)
  /-- Answers the request at a path within some milliseconds. -/
  | answer (path : String) (limit : Nat)
  | help
  | version
  deriving DecidableEq, Repr

inductive UsageError where
  | unknown (argument : String)
  | repeated (name : String)
  | missingValue (name : String)
  | unexpectedValue (name : String)
  | badNumber (text : String)
  deriving DecidableEq, Repr

inductive Switch where
  | batch | noFormatTables | noColor | evalRequest | timeoutMs | help | version
  deriving DecidableEq, Repr

namespace Switch

def all : List Switch :=
  [batch, noFormatTables, noColor, evalRequest, timeoutMs, help, version]

def name : Switch → String
  | batch => "batch"
  | noFormatTables => "no-format-tables"
  | noColor => "no-color"
  | evalRequest => "eval-request"
  | timeoutMs => "timeout-ms"
  | help => "help"
  | version => "version"

def ofName? (s : String) : Option Switch := all.find? fun o => o.name == s

def takesValue : Switch → Bool
  | evalRequest | timeoutMs => true
  | _ => false

end Switch

structure Arguments where
  scripts : List String
  switches : List Switch
  request : Option String
  limit : Nat

def defaultLimit : Nat := 2000

def Arguments.empty : Arguments := ⟨[], [], none, defaultLimit⟩

def Arguments.command (a : Arguments) : Command :=
  match a.request with
  | some path => .answer path a.limit
  | none =>
    .shell ⟨!a.switches.contains .noFormatTables, !a.switches.contains .noColor, a.scripts,
      a.switches.contains .batch⟩

/-- Digits after an optional plus sign, for a number of 64 bits. -/
def limit? (s : String) : Option Nat :=
  let ds :=
    match s.toList with
    | '+' :: ds => ds
    | ds => ds
  if ds.isEmpty || !ds.all isAsciiDigit then none
  else if Number.digitsValue ds < Number.twoTo 64 then some (Number.digitsValue ds) else none

def Arguments.add (a : Arguments) (o : Switch) (value : String) : Except UsageError Arguments :=
  if a.switches.contains o then .error (.repeated o.name)
  else
    let b := { a with switches := o :: a.switches }
    match o with
    | .evalRequest => .ok { b with request := some value }
    | .timeoutMs =>
      match limit? value with
      | some n => .ok { b with limit := n }
      | none => .error (.badNumber value)
    | _ => .ok b

inductive Shape where
  | positional
  /-- Two hyphens, after which all arguments are positional. -/
  | separator
  | long (name : List Char) (value : Option (List Char))
  | short (letter : Char)
  deriving DecidableEq, Repr

def Shape.of (argument : String) : Shape :=
  match argument.toList with
  | ['-', '-'] => .separator
  | '-' :: '-' :: cs =>
    match cs.dropWhile (· != '=') with
    | _ :: value => .long (cs.takeWhile (· != '=')) (some value)
    | [] => .long cs none
  | '-' :: c :: _ => .short c
  | _ => .positional

/-- Help and version end the reading, whatever follows. -/
def parseFrom (a : Arguments) : List String → Except UsageError Command
  | [] => .ok a.command
  | argument :: rest =>
    match Shape.of argument with
    | .separator => .ok { a with scripts := a.scripts ++ rest }.command
    | .positional => parseFrom { a with scripts := a.scripts ++ [argument] } rest
    | .short 'h' => .ok .help
    | .short 'V' => .ok .version
    | .short _ => .error (.unknown argument)
    | .long name value =>
      match Switch.ofName? (String.ofList name) with
      | none => .error (.unknown argument)
      | some o =>
        if o.takesValue then
          match value, rest with
          | some v, rest => do parseFrom (← a.add o (String.ofList v)) rest
          | none, v :: rest =>
            if Shape.of v = .positional then do parseFrom (← a.add o v) rest
            else .error (.missingValue o.name)
          | none, [] => .error (.missingValue o.name)
        else if value.isSome then .error (.unexpectedValue o.name)
        else if o = .help then .ok .help
        else if o = .version then .ok .version
        else do parseFrom (← a.add o "") rest

def parse (arguments : List String) : Except UsageError Command := parseFrom .empty arguments

end FormulaShell.CommandLine
