import FormulaShell.Value.Layout

namespace FormulaShell.Value

def untypedText : String :=
  "<Untyped: Use Value, Text, Boolean, and other functions to establish the type.>"

def inBraces (items : List String) (separator : String) : String :=
  "\x7b" ++ String.intercalate separator items ++ "\x7d"

def inBrackets (items : List String) (separator : String) : String :=
  "[" ++ String.intercalate separator items ++ "]"

mutual

/-- With `aligned`, a table that has columns other than the value column is laid out. -/
def render (aligned : Bool) : Value → String
  | blank => "Blank()"
  | error m => "<Error: " ++ m ++ ">"
  | boolean b => boolText b
  | number x => Number.text x
  | decimal d => d.text
  | text s => Text.quoted s
  | record r => renderRecord aligned r
  | table t =>
    if Table.isColumn t then inBrackets (renderItems aligned t) ", "
    else if aligned && !(Table.columns t).isEmpty then Table.layout t
    else inBrackets (renderRows aligned t) ", "
  | untyped _ => untypedText

def renderRecord (aligned : Bool) : Fields Value → String
  | ⟨es⟩ => inBraces (renderEntries aligned es) ", "

def renderEntries (aligned : Bool) : List (String × Value) → List String
  | [] => []
  | (n, v) :: rest => (n ++ ":" ++ render aligned v) :: renderEntries aligned rest

def renderRows (aligned : Bool) : List (Fields Value) → List String
  | [] => []
  | r :: rest => renderRecord aligned r :: renderRows aligned rest

def renderItems (aligned : Bool) : List (Fields Value) → List String
  | ⟨(_, v) :: _⟩ :: rest => render aligned v :: renderItems aligned rest
  | _ => []

end

def sortedEntries (es : List (String × String)) : List (String × String) :=
  es.mergeSort fun a b => decide (a.1 ≤ b.1)

mutual

/-- Fields in the order of their names, and no blanks between parts. -/
def canonical : Value → String
  | blank => "Blank()"
  | error m => "<Error: " ++ m ++ ">"
  | boolean b => boolText b
  | number x => Number.text x
  | decimal d => d.text
  | text s => Text.quoted s
  | record r => canonicalRecord r
  | table t =>
    if Table.isColumn t then inBrackets (canonicalItems t) ","
    else "Table(" ++ String.intercalate "," (canonicalRows t) ++ ")"
  | untyped _ => untypedText

def canonicalRecord : Fields Value → String
  | ⟨es⟩ => inBraces ((sortedEntries (canonicalEntries es)).map fun e => e.1 ++ ":" ++ e.2) ","

def canonicalEntries : List (String × Value) → List (String × String)
  | [] => []
  | (n, v) :: rest => (n, canonical v) :: canonicalEntries rest

def canonicalRows : List (Fields Value) → List String
  | [] => []
  | r :: rest => canonicalRecord r :: canonicalRows rest

def canonicalItems : List (Fields Value) → List String
  | ⟨(_, v) :: _⟩ :: rest => canonical v :: canonicalItems rest
  | _ => []

end

end FormulaShell.Value
