import FormulaShell.Formula.Builtin
import FormulaShell.Formula.Expr

namespace FormulaShell.Formula

inductive CheckError where
  | unknownName (name : String) (offset : Nat)
  | unknownFunction (name : String) (offset : Nat)
  | wrongArity (name : String) (arity : Arity) (received : Nat) (offset : Nat)
  deriving DecidableEq, Repr

structure Scope where
  isName : String → Bool
  arity? : String → Option Arity

def isRowScoped (function : String) : Bool := (Builtin.ofName? function).any Builtin.rowScoped

mutual

/-- With `names`, the names that are read have to be known. -/
def check (s : Scope) (names : Bool) : Expr → Except CheckError Unit
  | .number _ | .text _ | .boolean _ => .ok ()
  | .name n offset => if names && !s.isName n then .error (.unknownName n offset) else .ok ()
  | .record fields => checkFields s names fields
  | .table items | .chain items => checkAll s names items
  | .unary _ e | .percent e | .field e _ => check s names e
  | .binary _ l r => do
    check s names l
    check s names r
  | .call f args offset =>
    match s.arity? f with
    | none => .error (.unknownFunction f offset)
    | some arity =>
      if arity.admits args.length then checkArgs s names (names && !isRowScoped f) args
      else .error (.wrongArity f arity args.length offset)

def checkAll (s : Scope) (names : Bool) : List Expr → Except CheckError Unit
  | [] => .ok ()
  | e :: rest => do
    check s names e
    checkAll s names rest

def checkArgs (s : Scope) (first others : Bool) : List Expr → Except CheckError Unit
  | [] => .ok ()
  | e :: rest => do
    check s first e
    checkAll s others rest

def checkFields (s : Scope) (names : Bool) : List (String × Expr) → Except CheckError Unit
  | [] => .ok ()
  | (_, e) :: rest => do
    check s names e
    checkFields s names rest

end

end FormulaShell.Formula
