import FormulaShell.Value.Layout

namespace FormulaShell.Help

def usage : String := String.join [
  "\n",
  "Set( <identifier>, <expression> ) creates or changes a variable's value.\n",
  "<identifier> = <expression> defines a formula with automatic recalc.\n",
  "<expression> alone is evaluated and the result displayed.\n",
  "\n",
  "Available functions (all are case sensitive):\n"]

def language : String := String.join [
  "\n",
  "Available operators: = <> <= >= + - * / % && And || Or ! Not & ^\n",
  "\n",
  "Record syntax is \x7b < field name >: < value >, ... \x7d without a comma before the first field,\n",
  "  for example: \x7b Name: \"Joe\", Age: 29 \x7d\n",
  "Use the Table function for a list of records:\n",
  "  for example: Table( \x7b Name: \"Joe\" \x7d, \x7b Name: \"Sally\" \x7d )\n",
  "Use [ <value>, ... ] for a single column table, field name is \"Value\",\n",
  "  for example: [ 1, 2, 3 ]\n",
  "Records and Tables can be arbitrarily nested.\n",
  "\n",
  "Once a formula is defined or a variable's type is defined, it cannot be changed.\n",
  "Use the Reset() function to clear all formulas and variables.\n"]

def namesPerRow : Nat := 5

def nameWidth : Nat := 14

def rows (column : Nat) : List String → String
  | [] => if column = 0 then "" else "\n"
  | name :: rest =>
    let cell := "  " ++ Text.padRight nameWidth name
    if column + 1 = namesPerRow then cell ++ "\n" ++ rows 0 rest
    else cell ++ rows (column + 1) rest

/-- `Set` is a statement, and so in no list of functions. -/
def text (functionNames : List String) : String :=
  usage ++ rows 0 functionNames ++ "  Set\n" ++ language

end FormulaShell.Help
