import FormulaShell.Json.Text
import FormulaShell.Text.Blank
import FormulaShell.Value.Basic

namespace FormulaShell.Hosted

open FormulaShell.Json

inductive ContextError where
  | malformed
  | notObject
  deriving DecidableEq, Repr

def numberOf : Json.Number → Float
  | .whole n => FormulaShell.Number.ofWhole (n < 0) n.natAbs
  | .real x => x

def isObject : Document → Bool
  | .object _ => true
  | _ => false

def isScalar : Document → Bool
  | .object _ => false
  | .array _ => false
  | _ => true

mutual

/-- An array of objects is a table, and so is one of scalars; any other has no type. -/
def valueOf : Document → Value
  | .null => .blank
  | .boolean b => .boolean b
  | .number n => .number (numberOf n)
  | .text s => .text s
  | .object members => .record (recordOf members)
  | .array items =>
    if items.all isObject then .table (rowsOf items)
    else if items.all isScalar then .table (Table.ofValues (valuesOf items))
    else .untyped (Document.array items).compact

def recordOf : List (String × Document) → Record
  | members => ⟨fieldsOf members⟩

def fieldsOf : List (String × Document) → List (String × Value)
  | [] => []
  | (name, d) :: rest => (name, valueOf d) :: fieldsOf rest

def rowsOf : List Document → List Record
  | .object members :: rest => recordOf members :: rowsOf rest
  | _ => []

def valuesOf : List Document → List Value
  | [] => []
  | d :: rest => valueOf d :: valuesOf rest

end

/-- A context that is missing, blank or null binds nothing. -/
def bindingsOf (context : Option String) : Except ContextError Record :=
  match context with
  | none => .ok .empty
  | some s =>
    if s.toList.all Text.isBlank then .ok .empty
    else
      match Document.read? s with
      | some (.object members) => .ok (recordOf members)
      | some .null => .ok .empty
      | some _ => .error .notObject
      | none => .error .malformed

end FormulaShell.Hosted
