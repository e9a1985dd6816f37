import FormulaShell.Workbook.Basic

namespace FormulaShell.Workbook

open FormulaShell.Formula

variable {σ : Type}

def typeErrors (t : TypeName) : List WorkbookError :=
  match Kind.ofTypeName? t.name with
  | some _ => []
  | none => [.definition (.unknownType t.name t.offset)]

def paramErrors (function : String) (seen : List String) : List Param → List WorkbookError
  | [] => []
  | p :: rest =>
    let repeated :=
      if seen.contains p.name then [.definition (.duplicateParam function p.name)] else []
    repeated ++ typeErrors p.type ++ paramErrors function (p.name :: seen) rest

/-- What the body of a definition may use: parameters, the workbook's names, the functions of the
batch, of which the first of a name counts, and those of the workbook. -/
def bodyScope (w : Workbook σ) (batch : List FunctionDef) (d : FunctionDef) : Scope where
  isName name := d.params.any (·.name == name) || w.values.contains name
  arity? name :=
    match batch.find? (·.name == name) with
    | some d => some (.exactly d.params.length)
    | none => w.arity? name

def definitionErrors (w : Workbook σ) (batch : List FunctionDef) (d : FunctionDef) :
    List WorkbookError :=
  let taken :=
    if (w.arity? d.name).isSome || 1 < (batch.filter (·.name == d.name)).length then
      [.definition (.functionInUse d.name d.offset)]
    else []
  let body :=
    match check (bodyScope w batch d) true d.body with
    | .ok () => []
    | .error e => [.unchecked e]
  taken ++ paramErrors d.name [] d.params ++ typeErrors d.result ++ body

def resolve? (d : FunctionDef) : Option UserFunction := do
  let params ← d.params.mapM fun p => (Kind.ofTypeName? p.type.name).map fun k => (p.name, k)
  let result ← Kind.ofTypeName? d.result.name
  pure ⟨d.name, params, result, d.body⟩

def addFunctions (w : Workbook σ) (fs : List UserFunction) : Workbook σ :=
  { w with functions := fs.foldl (fun t f => t.insert f.name f) w.functions }

def addDefinitions (w : Workbook σ) (batch : List FunctionDef) :
    Except (List WorkbookError) (Workbook σ) :=
  match batch.flatMap (definitionErrors w batch) with
  | [] => .ok (w.addFunctions (batch.filterMap resolve?))
  | errors => .error errors

def defineFunctions (w : Workbook σ) (source : String) :
    Except (List WorkbookError) (Workbook σ) :=
  match readDefinitions source with
  | .error e => .error [.unreadable e]
  | .ok batch => w.addDefinitions batch

end FormulaShell.Workbook
