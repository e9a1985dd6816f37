import FormulaShell.Script.Statement
import FormulaShell.Workbook.FunctionTable
import FormulaShell.Workbook.Update

namespace FormulaShell

open FormulaShell.Formula FormulaShell.Script

inductive Outcome where
  | shown (value : Value)
  | updated (name : String) (value : Value)
  /-- The first error of a refused batch of functions. -/
  | refused (e : WorkbookError)
  | failed (message : String)

namespace Workbook

variable {σ : Type}

/-- A workbook after a statement. Statements that define something have no outcome if they
succeed. -/
structure Executed (σ : Type) where
  workbook : Workbook σ
  outcome : Option Outcome
  events : List Recalculation

def resultOf (w : Workbook σ) (source : String) (poll : Poll σ) (world : σ) :
    Except String Value × σ :=
  match w.evaluate source .empty poll world with
  | (.error e, world) => (.error e.message, world)
  | (.ok (.error m), world) => (.error m, world)
  | (.ok v, world) => (.ok v, world)

def failure (w : Workbook σ) (message : String) : Executed σ := ⟨w, some (.failed message), []⟩

def assign (w : Workbook σ) (name source : String) (poll : Poll σ) (world : σ) :
    Executed σ × σ :=
  match w.resultOf source poll world with
  | (.error m, world) => (w.failure m, world)
  | (.ok v, world) =>
    match w.update name v world with
    | (.error e, world) => (w.failure e.message, world)
    | (.ok c, world) => (⟨c.workbook, some (.updated name v), c.events⟩, world)

def execute (w : Workbook σ) (s : Statement) (poll : Poll σ) (world : σ) : Executed σ × σ :=
  match s with
  | .empty => (⟨w, none, []⟩, world)
  | .assignment name expression => w.assign name expression poll world
  | .namedFormula name formula =>
    match w.define name formula world with
    | (.error e, world) => (w.failure e.message, world)
    | (.ok c, world) => (⟨c.workbook, none, c.events⟩, world)
  | .functionDefinition source =>
    match w.defineFunctions source with
    | .ok c => (⟨c, none, []⟩, world)
    | .error es => (⟨w, es.head?.map .refused, []⟩, world)
  | .evaluation expression =>
    match w.resultOf expression poll world with
    | (.error m, world) => (w.failure m, world)
    | (.ok v, world) => (⟨w, some (.shown v), []⟩, world)

end Workbook

end FormulaShell
