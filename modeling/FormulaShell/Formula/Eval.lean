import FormulaShell.Formula.Aggregation
import FormulaShell.Formula.Environment
import FormulaShell.Formula.Functions

namespace FormulaShell.Formula

variable {σ : Type}

def firstError? (vs : List Value) : Option Value := vs.find? Value.isError

def thisRecord : String := "ThisRecord"

/-- The scope of a row: its fields, and the row itself under a name of its own. -/
def rowFrame (row : Record) : Record := row.insert thisRecord (.record row)

def filterRows (test : Record → Eval σ (Except String Bool)) (kept : Table) :
    Table → Eval σ (Except String Table)
  | [] => pure (.ok kept.reverse)
  | row :: rest => do
    match ← test row with
    | .error m => pure (.error m)
    | .ok true => filterRows test (row :: kept) rest
    | .ok false => filterRows test kept rest

/-- Records as results of all rows make rows again, anything else makes a column. -/
def tableOfResults (vs : List Value) : Table :=
  let records := vs.filterMap fun
    | .record r => some r
    | _ => none
  if !vs.isEmpty && records.length == vs.length then Table.union records else Table.ofValues vs

def resultOf (f : UserFunction) (v : Value) : Value :=
  if v.isError then v
  else if f.result = .blank then .blank
  else valueOf (coerce v f.result)

/-- Runs the body of a function in a scope of its parameters, while calls may nest deeper. -/
abbrev Enter (σ : Type) := Option (Record → Expr → Eval σ Value)

section

variable (env : Environment σ) (enter : Enter σ)

def finishCall (f : UserFunction) (scope : Except Value Record) : Eval σ Value :=
  match scope, enter with
  | .error v, _ => pure v
  | .ok scope, some run => do return resultOf f (← run scope f.body)
  | .ok _, none => pure (env.faults.tooDeep f.name)

def applyStrict (b : Builtin) (vs : List Value) : Value :=
  match (if b = .isError then none else firstError? vs) with
  | some e => e
  | none =>
    match b.result? vs with
    | some r => valueOf r
    | none => env.faults.missingArgument

def applyHost (name : String) (h : HostFunction σ) (vs : List Value) : Eval σ Value :=
  match firstError? vs with
  | some e => pure e
  | none =>
    if h.arity.admits vs.length then callHost h vs
    else pure (env.faults.wrongArity name h.arity vs.length)

mutual

def eval (frames : Frames) : Expr → Eval σ Value
  | .number x => do
    visit env
    pure (.number x)
  | .text s => do
    visit env
    pure (.text s)
  | .boolean b => do
    visit env
    pure (.boolean b)
  | .name n _ => do
    visit env
    pure (lookup env frames n)
  | .record fields => do
    visit env
    return .record (← evalFields frames .empty fields)
  | .table items => do
    visit env
    return .table (Table.ofValues (← evalAll frames items))
  | .unary op e => do
    visit env
    return unary op (← eval frames e)
  | .percent e => do
    visit env
    return percent (← eval frames e)
  | .binary .and l r => do
    visit env
    match truth (← eval frames l) with
    | .error m => pure (.error m)
    | .ok false => pure (.boolean false)
    | .ok true => return valueOf ((truth (← eval frames r)).map .boolean)
  | .binary .or l r => do
    visit env
    match truth (← eval frames l) with
    | .error m => pure (.error m)
    | .ok true => pure (.boolean true)
    | .ok false => return valueOf ((truth (← eval frames r)).map .boolean)
  | .binary op l r => do
    visit env
    let a ← eval frames l
    let b ← eval frames r
    pure (binary op a b)
  | .field e name => do
    visit env
    return fieldOf (← eval frames e) name
  | .chain items => do
    visit env
    evalChain frames .blank items
  | .call name args _ => do
    visit env
    match env.functions.get? name with
    | some f =>
      if f.arity.admits args.length then
        if enter.isSome then
          let scope ← bindArgs frames .empty f.params args
          finishCall env enter f scope
        else pure (env.faults.tooDeep f.name)
      else pure (env.faults.wrongArity f.name f.arity args.length)
    | none =>
      match env.hosts.get? name with
      | some h =>
        let vs ← evalAll frames args
        applyHost env name h vs
      | none =>
        match Builtin.ofName? name with
        | none => pure (env.faults.unknownFunction name)
        | some b =>
          if b.arity.admits args.length then
            match b, args with
            | .ifThen, args => evalIf frames args
            | .forAll, t :: e :: _ =>
              match rows "ForAll" (← eval frames t) with
              | .error m => pure (.error m)
              | .ok rows =>
                let vs ← rows.mapM fun row => eval (rowFrame row :: frames) e
                pure (.table (tableOfResults vs))
            | .filter, t :: conditions =>
              match rows "Filter" (← eval frames t) with
              | .error m => pure (.error m)
              | .ok rows =>
                let kept ← filterRows
                  (fun row => evalConditions (rowFrame row :: frames) conditions) [] rows
                pure (valueOf (kept.map .table))
            | .sum, t :: more => do
              let first ← eval frames t
              return valueOf ((← collect frames "Sum" first more).bind total)
            | .max, t :: more => do
              let first ← eval frames t
              return valueOf ((← collect frames "Max" first more).map (extremeValue .gt))
            | .min, t :: more => do
              let first ← eval frames t
              return valueOf ((← collect frames "Min" first more).map (extremeValue .lt))
            | b, args =>
              let vs ← evalAll frames args
              pure (applyStrict env b vs)
          else pure (env.faults.wrongArity name b.arity args.length)

def evalAll (frames : Frames) : List Expr → Eval σ (List Value)
  | [] => pure []
  | e :: rest => do
    let v ← eval frames e
    let vs ← evalAll frames rest
    pure (v :: vs)

def evalFields (frames : Frames) (done : Record) : List (String × Expr) → Eval σ Record
  | [] => pure done
  | (n, e) :: rest => do
    let v ← eval frames e
    evalFields frames (done.insert n v) rest

def evalChain (frames : Frames) (last : Value) : List Expr → Eval σ Value
  | [] => pure last
  | e :: rest => do
    let v ← eval frames e
    if v.isError then pure v else evalChain frames v rest

/-- Conditions and values in turn, and at most one value for no condition. -/
def evalIf (frames : Frames) : List Expr → Eval σ Value
  | [] => pure .blank
  | [otherwise] => eval frames otherwise
  | condition :: value :: rest => do
    match truth (← eval frames condition) with
    | .error m => pure (.error m)
    | .ok true => eval frames value
    | .ok false => evalIf frames rest

def evalConditions (frames : Frames) : List Expr → Eval σ (Except String Bool)
  | [] => pure (.ok true)
  | e :: rest => do
    match truth (← eval frames e) with
    | .error m => pure (.error m)
    | .ok false => pure (.ok false)
    | .ok true => evalConditions frames rest

def bindArgs (frames : Frames) (scope : Record) :
    List (String × Kind) → List Expr → Eval σ (Except Value Record)
  | (p, k) :: params, e :: rest => do
    let v ← eval frames e
    if v.isError then pure (.error v)
    else
      match coerce v k with
      | .error m => pure (.error (.error m))
      | .ok w => bindArgs frames (scope.insert p w) params rest
  | _, _ => pure (.ok scope)

/-- The numbers of a column, of a formula over rows, or of the arguments themselves, of which the
first is given by its value. -/
def collect (frames : Frames) (name : String) (first : Value) :
    List Expr → Eval σ (Except String (List Numeric))
  | [] =>
    match first with
    | .table rows =>
      if Table.isColumn rows then pure (numerics (columnValues rows))
      else pure (.error (name ++ " of a table needs a single-column table or a formula."))
    | v => pure (numerics [v])
  | [e] =>
    match first with
    | .table rows => do
      let vs ← rows.mapM fun row => eval (rowFrame row :: frames) e
      pure (numerics vs)
    | v => do
      let w ← eval frames e
      pure (numerics [v, w])
  | e :: more =>
    match first with
    | .table _ => pure (.error (wrongArityMessage name ⟨1, some 2⟩ (more.length + 2)))
    | v => do
      let w ← eval frames e
      let vs ← evalAll frames more
      pure (numerics (v :: w :: vs))

end

end

/-- Evaluation while `depth` calls may still be opened inside one another. -/
def evalAt (env : Environment σ) : Nat → Frames → Expr → Eval σ Value
  | 0, frames, e => eval env none frames e
  | depth + 1, frames, e => eval env (some fun scope body => evalAt env depth [scope] body) frames e

def evaluate (env : Environment σ) (e : Expr) (world : σ) : Except Interrupt Value × σ :=
  let (r, p) := (do
    pause env
    evalAt env maxCallDepth [] e : Eval σ Value).run.run ⟨0, world⟩
  (r, p.world)

end FormulaShell.Formula
