import FormulaShell.Proofs.Formula.Site

namespace FormulaShell.Formula

variable {σ α β : Type}

/-- What ends the program. -/
inductive Crash where
  | position (i count : Nat)
  /-- A number that is not the number of one of so many rows. -/
  | row (x : Float) (count : Nat)
  | count (x : Float)
  | overflow
  | zeroDivisor

/-- A result or the message of a failure, unless there is a crash. -/
abbrev Attempt := ExceptT String (Except Crash)

abbrev Crashing (σ : Type) := ExceptT Crash (Eval σ)

/-- An argument that is evaluated where it is needed. -/
abbrev Deferred (σ : Type) := Frames → Crashing σ Value

namespace Crashing

def position (items : List α) (i : Nat) : Except Crash α :=
  match items[i]? with
  | some a => .ok a
  | none => .error (.position i items.length)

def argument (vs : List Value) (i : Nat) : Attempt Value := ExceptT.lift (position vs i)

def positionsFrom (items : List α) (i : Nat) : Except Crash (List α) :=
  if i ≤ items.length then .ok (items.drop i) else .error (.position i items.length)

def count? (x : Float) : Option Nat :=
  if 0.0 ≤ x ∧ x < 18446744073709551616.0 then some (Number.wholePart x) else none

def count (x : Float) : Except Crash Nat :=
  match count? x with
  | some n => .ok n
  | none => .error (.count x)

/-- Places to round to; any number of them is as good as the most of 32 bits. -/
def places (x : Float) : Except Crash Nat :=
  if 0.0 ≤ x then .ok (placeCount x) else .error (.count x)

def rowNumbered (t : Table) (x : Float) : Except Crash Record :=
  match count? x with
  | some (i + 1) =>
    match t[i]? with
    | some row => .ok row
    | none => .error (.row x t.length)
  | _ => .error (.row x t.length)

def isValueRow (row : Record) : Except Crash Bool := do
  if row.entries.length = 1 then return (← position row.entries 0).1 == Table.valueColumn
  else return false

def isColumn (t : Table) : Except Crash Bool := t.allM isValueRow

def inRange : Option Decimal → Except Crash Decimal
  | some d => .ok d
  | none => .error .overflow

/-- An operation on decimals without a guard. There is none for powers. -/
def decimal (op : ArithmeticOp) (x y : Decimal) : Except Crash Decimal :=
  match op with
  | .add => inRange (x.add? y)
  | .sub => inRange (x.sub? y)
  | .mul => inRange (x.mul? y)
  | .div | .pow => if y.isZero then .error .zeroDivisor else inRange (x.div? y)

def round (d : Decimal) (places : Nat) : Except Crash Decimal :=
  if d.scale ≤ places ∨ d.isZero then .ok (d.round places)
  else
    inRange (Decimal.ofParts? d.negative
      (Decimal.roundHalfUp d.mantissa (Number.tenTo (d.scale - places))) places)

def guarded (d : Except Crash Decimal) : Option Decimal := d.toOption

def calculate (op : ArithmeticOp) (l r : Value) : Except String Value := do
  match ← numeric l, ← numeric r with
  | .decimal x, .decimal y =>
    match op with
    | .pow => finite (Float.pow x.toNumber y.toNumber)
    | .div => if y.isZero then .error divisionByZero else fitting (guarded (decimal .div x y))
    | op => fitting (guarded (decimal op x y))
  | a, b => calculateBinary op a.toFloat b.toFloat

def applyBinary (op : BinaryOp) (l r : Value) : Except String Value :=
  match op with
  | .add => calculate .add l r
  | .sub => calculate .sub l r
  | .mul => calculate .mul l r
  | .div => calculate .div l r
  | .pow => calculate .pow l r
  | op => Formula.applyBinary op l r

def binary (op : BinaryOp) (l r : Value) : Value :=
  match l, r with
  | .error m, _ => .error m
  | _, .error m => .error m
  | l, r => valueOf (applyBinary op l r)

def addDecimals (acc : Decimal) : List Numeric → Option Decimal
  | [] => some acc
  | .decimal d :: rest =>
    match guarded (decimal .add acc d) with
    | some next => addDecimals next rest
    | none => none
  | .binary _ :: rest => addDecimals acc rest

def total (ns : List Numeric) : Except String Value :=
  if !ns.isEmpty && ns.all Numeric.isDecimal then fitting (addDecimals .zero ns)
  else finite (ns.foldl (fun acc n => acc + n.toFloat) (-0.0))

def rounded (v digits : Value) : Attempt Value := do
  let digits := Number.trunc (← float digits)
  match ← numeric v with
  | .decimal d =>
    if digits >= 0.0 then return .decimal (← round d (← places digits))
    else Formula.rounded.scaled d.toNumber digits
  | .binary x => Formula.rounded.scaled x digits

def sequence (n : Value) (start step : Option Value) : Attempt Value := do
  let n := Number.trunc (← float n)
  if 0.0 <= n && n <= Float.ofNat maxSequence then
    let first ← float (start.getD (.number 1.0))
    let increment ← float (step.getD (.number 1.0))
    return .table (Table.ofValues ((List.range (← count n)).map fun i =>
      .number (first + increment * Float.ofNat i)))
  else throw ("Sequence count must be between 0 and " ++ toString maxSequence ++ ".")

def rowAt (v i : Value) : Attempt Value := do
  let t ← rows "Index" v
  let index := Number.trunc (← float i)
  if 1.0 <= index && index <= Number.ofCount t.length then return .record (← rowNumbered t index)
  else throw ("Index " ++ Number.text index ++ " is out of range for a table of "
    ++ toString t.length ++ " rows.")

section

variable (frames : Frames)

def all : List (Deferred σ) → Crashing σ (List Value)
  | [] => pure []
  | d :: rest => do
    let v ← d frames
    let vs ← all rest
    pure (v :: vs)

def fields (done : Record) : List (String × Deferred σ) → Crashing σ Record
  | [] => pure done
  | (n, d) :: rest => do
    let v ← d frames
    fields (done.insert n v) rest

def chain (last : Value) : List (Deferred σ) → Crashing σ Value
  | [] => pure last
  | d :: rest => do
    let v ← d frames
    if v.isError then pure v else chain v rest

def conditions : List (Deferred σ) → Crashing σ (Except String Bool)
  | [] => pure (.ok true)
  | d :: rest => do
    match truth (← d frames) with
    | .error m => pure (.error m)
    | .ok false => pure (.ok false)
    | .ok true => conditions rest

def bindArgs (scope : Record) :
    List (String × Kind) → List (Deferred σ) → Crashing σ (Except Value Record)
  | (p, k) :: params, d :: rest => do
    let v ← d frames
    if v.isError then pure (.error v)
    else
      match coerce v k with
      | .error m => pure (.error (.error m))
      | .ok w => bindArgs (scope.insert p w) params rest
  | _, _ => pure (.ok scope)

def overRows (args : List (Deferred σ)) : Table → Crashing σ (List Value)
  | [] => pure []
  | row :: rest => do
    let v ← (← position args 1) (rowFrame row :: frames)
    let vs ← overRows args rest
    pure (v :: vs)

def filterRows (args : List (Deferred σ)) (kept : Table) :
    Table → Crashing σ (Except String Table)
  | [] => pure (.ok kept.reverse)
  | row :: rest => do
    match ← conditions (rowFrame row :: frames) (← positionsFrom args 1) with
    | .error m => pure (.error m)
    | .ok true => filterRows args (row :: kept) rest
    | .ok false => filterRows args kept rest

def ifFrom (args : List (Deferred σ)) (i : Nat) : Crashing σ Value := do
  if i + 1 < args.length then
    match truth (← (← position args i) frames) with
    | .error m => pure (.error m)
    | .ok true => (← position args (i + 1)) frames
    | .ok false => ifFrom args (i + 2)
  else
    match args[i]? with
    | some otherwise => otherwise frames
    | none => pure .blank
termination_by args.length - i

def forAll (args : List (Deferred σ)) : Crashing σ Value := do
  match rows "ForAll" (← (← position args 0) frames) with
  | .error m => pure (.error m)
  | .ok rows =>
    let vs ← overRows frames args rows
    pure (.table (tableOfResults vs))

def filter (args : List (Deferred σ)) : Crashing σ Value := do
  match rows "Filter" (← (← position args 0) frames) with
  | .error m => pure (.error m)
  | .ok rows => return valueOf ((← filterRows frames args [] rows).map .table)

def collect (name : String) (args : List (Deferred σ)) :
    Crashing σ (Except String (List Numeric)) := do
  match ← (← position args 0) frames, args.length with
  | .table rows, 2 => return numerics (← overRows frames args rows)
  | .table rows, 1 =>
    if ← isColumn rows then return numerics (columnValues rows)
    else return .error (name ++ " of a table needs a single-column table or a formula.")
  | .table _, n => return .error (wrongArityMessage name ⟨1, some 2⟩ n)
  | v, _ => return numerics (v :: (← all frames (← positionsFrom args 1)))

end

/-- How a built-in function is carried out: on values, or on arguments that it evaluates itself. -/
inductive Implementation (σ : Type) where
  | strict (f : List Value → Attempt Value)
  | deferred (f : Frames → List (Deferred σ) → Crashing σ Value)

def implementation : Builtin → Implementation σ
  | .abs => .strict fun vs => do absolute (← argument vs 0)
  | .blank => .strict fun _ => return .blank
  | .concatenate => .strict fun vs => joined vs
  | .countRows => .strict fun vs => do
    return .number (Number.ofCount (← rows "CountRows" (← argument vs 0)).length)
  | .decimal => .strict fun vs => do toDecimal (← argument vs 0)
  | .error => .strict fun vs => do throw (← text (← argument vs 0))
  | .filter => .deferred filter
  | .first => .strict fun vs => do return rowOrBlank (← rows "First" (← argument vs 0)).head?
  | .forAll => .deferred forAll
  | .ifThen => .deferred fun frames args => ifFrom frames args 0
  | .index => .strict fun vs => do rowAt (← argument vs 0) (← argument vs 1)
  | .isBlank => .strict fun vs => return .boolean (isBlank (← argument vs 0))
  | .isError => .strict fun vs => return .boolean (← argument vs 0).isError
  | .last => .strict fun vs => do return rowOrBlank (← rows "Last" (← argument vs 0)).getLast?
  | .len => .strict fun vs => do
    return .number (Number.ofCount (← text (← argument vs 0)).length)
  | .lower => .strict fun vs => do return .text (Text.lower (← text (← argument vs 0)))
  | .max => .deferred fun frames args =>
    return valueOf ((← collect frames "Max" args).map (extremeValue .gt))
  | .min => .deferred fun frames args =>
    return valueOf ((← collect frames "Min" args).map (extremeValue .lt))
  | .mod => .strict fun vs => do modulo (← argument vs 0) (← argument vs 1)
  | .not => .strict fun vs => do return .boolean !(← truth (← argument vs 0))
  | .round => .strict fun vs => do rounded (← argument vs 0) (← argument vs 1)
  | .sequence => .strict fun vs => do sequence (← argument vs 0) vs[1]? vs[2]?
  | .sqrt => .strict fun vs => do squareRoot (← argument vs 0)
  | .sum => .deferred fun frames args => return valueOf ((← collect frames "Sum" args).bind total)
  | .table => .strict fun vs => makeTable vs
  | .text => .strict fun vs => do return .text (← text (← argument vs 0))
  | .upper => .strict fun vs => do return .text (Text.upper (← text (← argument vs 0)))
  | .value => .strict fun vs => do toNumber (← argument vs 0)

section

variable (env : Environment σ) (enter : Option (Record → Expr → Crashing σ Value))
  (frames : Frames)

def callUser (f : UserFunction) (args : List (Deferred σ)) : Crashing σ Value :=
  match enter with
  | none => pure (env.faults.tooDeep f.name)
  | some run => do
    match ← bindArgs frames .empty f.params args with
    | .error v => pure v
    | .ok scope => return resultOf f (← run scope f.body)

def callHost (name : String) (h : HostFunction σ) (args : List (Deferred σ)) :
    Crashing σ Value := do
  let vs ← all frames args
  applyHost env name h vs

def callBuiltin (b : Builtin) (args : List (Deferred σ)) : Crashing σ Value :=
  match implementation b with
  | .deferred f => f frames args
  | .strict f => do
    let vs ← all frames args
    match (if b = .isError then none else firstError? vs) with
    | some e => pure e
    | none => return valueOf (← (f vs).run)

def call (name : String) (args : List (Deferred σ)) : Callee σ → Crashing σ Value
  | .user f => callUser env enter frames f args
  | .host h => callHost env frames name h args
  | .builtin b => callBuiltin frames b args
  | .fault answer => pure answer

mutual

def eval (frames : Frames) : Expr → Crashing σ Value
  | .number x => do
    visit env
    pure (.number x)
  | .text s => do
    visit env
    pure (.text s)
  | .boolean b => do
    visit env
    pure (.boolean b)
  | .name n _ => do
    visit env
    pure (lookup env frames n)
  | .record items => do
    visit env
    return .record (← fields frames .empty (deferFields items))
  | .table items => do
    visit env
    return .table (Table.ofValues (← all frames (deferAll items)))
  | .unary op e => do
    visit env
    return unary op (← eval frames e)
  | .percent e => do
    visit env
    return valueOf (calculate .div (← eval frames e) (.number 100.0))
  | .binary .and l r => do
    visit env
    match truth (← eval frames l) with
    | .error m => pure (.error m)
    | .ok false => pure (.boolean false)
    | .ok true => return valueOf ((truth (← eval frames r)).map .boolean)
  | .binary .or l r => do
    visit env
    match truth (← eval frames l) with
    | .error m => pure (.error m)
    | .ok true => pure (.boolean true)
    | .ok false => return valueOf ((truth (← eval frames r)).map .boolean)
  | .binary op l r => do
    visit env
    let a ← eval frames l
    let b ← eval frames r
    pure (binary op a b)
  | .field e name => do
    visit env
    return fieldOf (← eval frames e) name
  | .chain items => do
    visit env
    chain frames .blank (deferAll items)
  | .call name args _ => do
    visit env
    call env enter frames name (deferAll args) (callee env name args.length)

def deferAll : List Expr → List (Deferred σ)
  | [] => []
  | e :: rest => (fun frames => eval frames e) :: deferAll rest

def deferFields : List (String × Expr) → List (String × Deferred σ)
  | [] => []
  | (n, e) :: rest => (n, fun frames => eval frames e) :: deferFields rest

end

end

def evalAt (env : Environment σ) : Nat → Frames → Expr → Crashing σ Value
  | 0, frames, e => eval env none frames e
  | depth + 1, frames, e => eval env (some fun scope body => evalAt env depth [scope] body) frames e

def evaluate (env : Environment σ) (e : Expr) (world : σ) :
    Except Interrupt (Except Crash Value) × σ :=
  let (r, p) := (do
    pause env
    evalAt env maxCallDepth [] e : Crashing σ Value).run.run.run ⟨0, world⟩
  (r, p.world)

end Crashing

end FormulaShell.Formula
