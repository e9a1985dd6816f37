import FormulaShell.Formula.Environment
import FormulaShell.Formula.Reading

namespace FormulaShell

open FormulaShell.Formula

inductive DefinitionError where
  | badName (name : String)
  | nameInUse (name : String)
  | functionInUse (name : String) (offset : Nat)
  | unknownType (name : String) (offset : Nat)
  | duplicateParam (function name : String)
  deriving DecidableEq, Repr

inductive VariableError where
  | badName (name : String)
  | kindLocked (name : String) (locked given : Kind)
  | isFormula (name : String)
  deriving DecidableEq, Repr

inductive WorkbookError where
  | unreadable (e : ReadError)
  | unchecked (e : CheckError)
  | definition (e : DefinitionError)
  | assignment (e : VariableError)
  | interrupted (i : Interrupt)
  deriving DecidableEq, Repr

def diagnosticOf (code message : String) (offset : Option Nat) : Diagnostic :=
  ⟨code, message, offset, none, none, none⟩

def DefinitionError.diagnostic : DefinitionError → Diagnostic
  | badName name => diagnosticOf "FML001" ("Not a valid name: " ++ name) none
  | nameInUse name => diagnosticOf "FML002" ("Name is already in use: " ++ name) none
  | functionInUse name offset =>
    diagnosticOf "DEF001" ("Function name is already in use: " ++ name) (some offset)
  | unknownType name offset => diagnosticOf "DEF002" ("Unknown type: " ++ name) (some offset)
  | duplicateParam function name =>
    diagnosticOf "DEF003" ("Duplicate parameter name in " ++ function ++ ": " ++ name) none

def VariableError.diagnostic : VariableError → Diagnostic
  | badName name => diagnosticOf "VAR001" ("Not a valid name: " ++ name) none
  | kindLocked name locked given =>
    diagnosticOf "VAR002" ("Can't change the type of " ++ name ++ " from " ++ locked.name ++ " to "
      ++ given.name ++ ".") none
  | isFormula name => diagnosticOf "VAR003" ("Can't assign to named formula " ++ name ++ ".") none

namespace WorkbookError

def diagnostic? : WorkbookError → Option Diagnostic
  | unreadable e => some e.diagnostic
  | unchecked e => some e.diagnostic
  | definition e => some e.diagnostic
  | assignment e => some e.diagnostic
  | interrupted _ => none

def message : WorkbookError → String
  | interrupted i => i.message
  | unreadable e => e.diagnostic.text
  | unchecked e => e.diagnostic.text
  | definition e => e.diagnostic.text
  | assignment e => e.diagnostic.text

end WorkbookError

end FormulaShell
