import FormulaShell.Formula.Eval
import FormulaShell.Text.Word
import FormulaShell.Workbook.Error

namespace FormulaShell

open FormulaShell.Formula

/-- What a name stands for. A variable is locked to the kind of its first value that is not
blank. -/
inductive Binding where
  | variable (locked : Option Kind)
  | formula
  deriving DecidableEq, Repr

structure NamedFormula where
  name : String
  expr : Expr
  /-- The names whose values the formula's value may depend on. -/
  dependencies : List String

/-- Named formulas are in the order of their definition. -/
structure Workbook (σ : Type) where
  values : Fields Value
  bindings : Fields Binding
  formulas : List NamedFormula
  functions : Fields UserFunction
  hosts : Fields (HostFunction σ)

structure Recalculation where
  name : String
  value : Value

namespace Workbook

variable {σ : Type}

def empty : Workbook σ := ⟨.empty, .empty, [], .empty, .empty⟩

def valueOf? (w : Workbook σ) (name : String) : Option Value := w.values.get? name

def addHost (w : Workbook σ) (name : String) (h : HostFunction σ) : Workbook σ :=
  { w with hosts := w.hosts.insert name h }

/-- A user's function goes before one of the host, and that before a built-in one. -/
def arity? (w : Workbook σ) (name : String) : Option Arity :=
  match w.functions.get? name with
  | some f => some f.arity
  | none =>
    match w.hosts.get? name with
    | some h => some h.arity
    | none => (Builtin.ofName? name).map Builtin.arity

def functionNames (w : Workbook σ) : List String :=
  let names := Builtin.all.map Builtin.name ++ w.functions.names ++ w.hosts.names
  (names.mergeSort fun a b => decide (a ≤ b)).eraseDups

def scope (w : Workbook σ) (bindings : Record) : Scope where
  isName name := bindings.contains name || w.values.contains name
  arity? := w.arity?

def environment (w : Workbook σ) (bindings : Record) (poll : Poll σ) : Environment σ :=
  ⟨w.values, bindings, w.functions, w.hosts, poll, .standard⟩

/-- The value of an expression with no names but the workbook's, never interrupted. -/
def settle (w : Workbook σ) (e : Expr) (world : σ) : Except Interrupt Value × σ :=
  evaluate (w.environment .empty .never) e world

def prepare (w : Workbook σ) (source : String) (bindings : Record) : Except WorkbookError Expr := do
  let e ← (readFormula source).mapError .unreadable
  (check (w.scope bindings) true e).mapError .unchecked
  pure e

def evaluate (w : Workbook σ) (source : String) (bindings : Record) (poll : Poll σ) (world : σ) :
    Except WorkbookError Value × σ :=
  match w.prepare source bindings with
  | .error e => (.error e, world)
  | .ok e =>
    let (r, world) := Formula.evaluate (w.environment bindings poll) e world
    (r.mapError .interrupted, world)

end Workbook

end FormulaShell
