import FormulaShell.Decimal.Basic
import FormulaShell.Fields

namespace FormulaShell

inductive Value where
  | blank
  | error (message : String)
  | boolean (b : Bool)
  | number (x : Float)
  | decimal (d : Decimal)
  | text (s : String)
  | record (fields : Fields Value)
  | table (rows : List (Fields Value))
  /-- A value whose type is not established, described by its source. -/
  | untyped (description : String)
  deriving Inhabited

abbrev Record := Fields Value

abbrev Table := List Record

inductive Kind where
  | blank | error | boolean | number | decimal | text | record | table | untyped
  deriving DecidableEq, Repr, Inhabited

namespace Kind

def name : Kind → String
  | blank => "Blank"
  | error => "Error"
  | boolean => "Boolean"
  | number => "Number"
  | decimal => "Decimal"
  | text => "Text"
  | record => "Record"
  | table => "Table"
  | untyped => "Untyped"

def ofTypeName? (s : String) : Option Kind :=
  if s = "Number" then some number
  else if s = "Decimal" then some decimal
  else if s = "Text" then some text
  else if s = "Boolean" then some boolean
  else if s = "Record" then some record
  else if s = "Table" then some table
  else if s = "Blank" ∨ s = "Void" then some blank
  else none

end Kind

namespace Value

def kind : Value → Kind
  | blank => .blank
  | error _ => .error
  | boolean _ => .boolean
  | number _ => .number
  | decimal _ => .decimal
  | text _ => .text
  | record _ => .record
  | table _ => .table
  | untyped _ => .untyped

def isBlank : Value → Bool
  | blank => true
  | _ => false

def isError : Value → Bool
  | error _ => true
  | _ => false

end Value

namespace Table

/-- The name of the only column of a table made from single values. -/
def valueColumn : String := "Value"

def valueRow (v : Value) : Record := ⟨[(valueColumn, v)]⟩

def ofValues (vs : List Value) : Table := vs.map valueRow

/-- Every row has the value column and no other; so does every row of an empty table. -/
def isColumn (t : Table) : Bool := t.all fun row => row.names == [valueColumn]

/-- Column names in the order in which the rows first use them. -/
def columns (t : Table) : List String := (t.flatMap Fields.names).eraseDups

/-- Gives every row all columns, with blanks for what is missing. -/
def union (rows : Table) : Table :=
  let names := columns rows
  rows.map fun row => ⟨names.map fun n => (n, (row.get? n).getD .blank)⟩

end Table

end FormulaShell
