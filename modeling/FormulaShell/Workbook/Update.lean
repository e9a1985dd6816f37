import FormulaShell.Workbook.Dependency

namespace FormulaShell.Workbook

open FormulaShell.Formula FormulaShell.Text

variable {σ : Type}

structure Changed (σ : Type) where
  workbook : Workbook σ
  events : List Recalculation

def setValue (w : Workbook σ) (name : String) (v : Value) : Workbook σ :=
  { w with values := w.values.insert name v }

/-- An interruption would become an error value. -/
def settledValue (r : Except Interrupt Value) : Value :=
  match r with
  | .ok v => v
  | .error i => .error i.message

/-- One pass over the formulas: those that depend on a changed name get new values and have then
changed themselves. -/
def recalculate (dirty : List String) (w : Workbook σ) (world : σ) :
    List NamedFormula → Changed σ × σ
  | [] => (⟨w, []⟩, world)
  | f :: rest =>
    if f.dependencies.any dirty.contains then
      let (r, world) := w.settle f.expr world
      let v := settledValue r
      let (c, world) := recalculate (f.name :: dirty) (w.setValue f.name v) world rest
      ({ c with events := ⟨f.name, v⟩ :: c.events }, world)
    else recalculate dirty w world rest

/-- The lock of a variable that takes a value, unless the value may not be taken. -/
def lockFor (w : Workbook σ) (name : String) (v : Value) :
    Except VariableError (Option Kind) :=
  let given := if v.isBlank then none else some v.kind
  match w.bindings.get? name with
  | some .formula => .error (.isFormula name)
  | some (.variable (some k)) =>
    if v.isBlank || v.kind == k then .ok (some k) else .error (.kindLocked name k v.kind)
  | some (.variable none) => .ok given
  | none => .ok given

def update (w : Workbook σ) (name : String) (v : Value) (world : σ) :
    Except WorkbookError (Changed σ) × σ :=
  if isName name then
    match w.lockFor name v with
    | .error e => (.error (.assignment e), world)
    | .ok lock =>
      let bound := { w with bindings := w.bindings.insert name (.variable lock) }
      let (c, world) := recalculate [name] (bound.setValue name v) world w.formulas
      (.ok c, world)
  else (.error (.assignment (.badName name)), world)

/-- Defines a name by a formula. Its first value counts as a recalculation. -/
def define (w : Workbook σ) (name source : String) (world : σ) :
    Except WorkbookError (Changed σ) × σ :=
  if !isName name then (.error (.definition (.badName name)), world)
  else if w.bindings.contains name then (.error (.definition (.nameInUse name)), world)
  else
    match w.prepare source .empty with
    | .error e => (.error e, world)
    | .ok e =>
      match w.settle e world with
      | (.error i, world) => (.error (.interrupted i), world)
      | (.ok v, world) =>
        let bound := { w with
          bindings := w.bindings.insert name .formula
          formulas := w.formulas ++ [NamedFormula.mk name e (w.dependencies e)] }
        (.ok ⟨bound.setValue name v, [⟨name, v⟩]⟩, world)

end FormulaShell.Workbook
