namespace FormulaShell

inductive Message where
  | output (text : String)
  | failure (text : String)
  /-- A failure of what the label names. -/
  | labeled (label text : String)
  deriving DecidableEq, Repr

namespace Color

def red : String := "\x1b[31m"

def reset : String := "\x1b[0m"

/-- A reset inside the text is followed by red again. -/
def inRed (s : String) : String := red ++ s.replace reset (reset ++ red) ++ reset

end Color

def errorText (color : Bool) (text : String) : String :=
  let s := "Error: " ++ text
  if color then Color.inRed s else s

def Message.write (color : Bool) : Message → String
  | output text => text ++ "\n"
  | failure text => errorText color text ++ "\n"
  | labeled label text => label ++ ": " ++ errorText color text ++ "\n"

def Message.writeAll (color : Bool) (ms : List Message) : String :=
  String.join (ms.map (Message.write color))

end FormulaShell
