import FormulaShell.CommandLine.Program

namespace FormulaShell.CommandLine

open FormulaShell.Script

def textOf (bytes : ByteArray) : Except String String :=
  match String.fromUTF8? bytes with
  | some s => .ok s
  | none => .error "stream did not contain valid UTF-8"

def osReason (code : UInt32) (details : String) : String :=
  details ++ " (os error " ++ toString code ++ ")"

def fileError : IO.Error → Shell.FileError
  | .noFileOrDirectory .. => .notFound
  | .inappropriateType _ code details => .unreadable (osReason code details)
  | .permissionDenied _ code details => .unreadable (osReason code details)
  | .otherError code details => .unreadable (osReason code details)
  | e => .unreadable (toString e)

def readPath (path : String) : IO (Except Shell.FileError String) := do
  try
    return (textOf (← IO.FS.readBinFile path)).mapError .unreadable
  catch e => return .error (fileError e)

partial def bytesFrom (stream : IO.FS.Stream) (read : ByteArray) : IO ByteArray := do
  let more ← stream.read 65536
  if more.isEmpty then return read else bytesFrom stream (read ++ more)

def surroundings : IO (Surroundings IO) := do
  return {
    file := readPath
    input := return textOf (← bytesFrom (← IO.getStdin) .empty)
    colored := ← (← IO.getStdout).isTty }

def put (color : Bool) (e : Shell.Event) : IO Unit := do
  IO.print (e.write color)
  (← IO.getStdout).flush

partial def typed (color : Bool) (a : Accumulator) (s : Session) : IO Unit := do
  IO.print a.prompt
  (← IO.getStdout).flush
  let line ← (← IO.getStdin).getLine
  let (b, statement) :=
    if line.isEmpty then (.empty, a.finish?)
    else a.feed (withoutReturn (line.toList.takeWhile (· != '\n')))
  match statement with
  | none => if line.isEmpty then return else typed color b s
  | some cs =>
    let c ← Shell.runStatement (Shell.load readPath Shell.maxImportDepth) (.entry cs) cs s
    c.events.forM (put color)
    if c.exit || line.isEmpty then return else typed color b c.session

def terminal (o : Shell.Settings) (color : Bool) : IO Unit := do
  IO.print Shell.banner
  let c ← Shell.loadAll readPath o.scripts o.session
  c.events.forM (put color)
  if c.exit || o.batch then return else typed color .empty c.session

def main (arguments : List String) : IO UInt32 := do
  let around ← surroundings
  match parse arguments, ← (← IO.getStdin).isTty with
  | .ok (.shell o), true =>
    terminal o (o.color && around.colored)
    return 0
  | _, _ =>
    let f ← program around arguments
    IO.print f.output
    IO.eprint f.errors
    return f.status.toUInt32

end FormulaShell.CommandLine

def main (arguments : List String) : IO UInt32 := FormulaShell.CommandLine.main arguments
