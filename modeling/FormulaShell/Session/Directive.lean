import FormulaShell.Workbook.Basic

namespace FormulaShell

open FormulaShell.Formula

inductive OptionName where
  | formatTable
  deriving DecidableEq, Repr

namespace OptionName

def all : List OptionName := [formatTable]

def text : OptionName → String
  | formatTable => "FormatTable"

/-- ASCII letters match in either case. -/
def ofText? (s : String) : Option OptionName :=
  all.find? fun o => o.text.toList.map Char.toLower == s.toList.map Char.toLower

end OptionName

inductive Directive where
  | help
  | reset
  | exit
  | setOption (name : OptionName) (value : Bool)
  | importScript (path : String)
  deriving DecidableEq, Repr

abbrev Directives := List Directive

namespace Directive

/-- A function that leaves a directive, or gives an error message instead. -/
def host (arity : Nat) (directive? : List Value → Except String Directive) :
    HostFunction Directives where
  arity := .exactly arity
  run args waiting :=
    match directive? args with
    | .ok d => (.boolean true, waiting ++ [d])
    | .error m => (.error m, waiting)

def setting? : List Value → Except String Directive
  | [.text name, .boolean value] =>
    match OptionName.ofText? name with
    | some o => .ok (setOption o value)
    | none => .error ("Invalid option name: " ++ name ++ ".")
  | [.text _, v] => .error ("Option value must be a Boolean, found " ++ v.kind.name ++ ".")
  | _ => .error "Option name must be Text."

def loading? : List Value → Except String Directive
  | [.text path] => .ok (importScript path)
  | _ => .error "Import expects a file path."

def hosts : List (String × HostFunction Directives) :=
  [("Help", host 0 fun _ => .ok help),
   ("Reset", host 0 fun _ => .ok reset),
   ("Exit", host 0 fun _ => .ok exit),
   ("Option", host 2 setting?),
   ("Import", host 1 loading?)]

end Directive

end FormulaShell
