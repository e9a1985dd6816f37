import FormulaShell.Formula.Arity

namespace FormulaShell.Formula

inductive Builtin where
  | abs | blank | concatenate | countRows | decimal | error | filter | first | forAll | ifThen
  | index | isBlank | isError | last | len | lower | max | min | mod | not | round | sequence
  | sqrt | sum | table | text | upper | value
  deriving DecidableEq, Repr

namespace Builtin

def all : List Builtin :=
  [abs, blank, concatenate, countRows, decimal, error, filter, first, forAll, ifThen, index,
   isBlank, isError, last, len, lower, max, min, mod, not, round, sequence, sqrt, sum, table,
   text, upper, value]

def name : Builtin → String
  | abs => "Abs"
  | blank => "Blank"
  | concatenate => "Concatenate"
  | countRows => "CountRows"
  | decimal => "Decimal"
  | error => "Error"
  | filter => "Filter"
  | first => "First"
  | forAll => "ForAll"
  | ifThen => "If"
  | index => "Index"
  | isBlank => "IsBlank"
  | isError => "IsError"
  | last => "Last"
  | len => "Len"
  | lower => "Lower"
  | max => "Max"
  | min => "Min"
  | mod => "Mod"
  | not => "Not"
  | round => "Round"
  | sequence => "Sequence"
  | sqrt => "Sqrt"
  | sum => "Sum"
  | table => "Table"
  | text => "Text"
  | upper => "Upper"
  | value => "Value"

def ofName? (s : String) : Option Builtin := all.find? fun b => b.name == s

def arity : Builtin → Arity
  | blank => .exactly 0
  | table => ⟨0, none⟩
  | concatenate | sum | max | min => ⟨1, none⟩
  | ifThen | filter => ⟨2, none⟩
  | sequence => ⟨1, some 3⟩
  | round | mod | index | forAll => .exactly 2
  | abs | countRows | decimal | error | first | isBlank | isError | last | len | lower | not
  | sqrt | text | upper | value => .exactly 1

/-- The arguments after the first may read the fields of rows. -/
def rowScoped : Builtin → Bool
  | sum | max | min | forAll | filter => true
  | _ => false

end Builtin

end FormulaShell.Formula
