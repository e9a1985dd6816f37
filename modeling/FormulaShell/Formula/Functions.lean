import FormulaShell.Formula.Builtin
import FormulaShell.Formula.Operators
import FormulaShell.Decimal.Reading
import FormulaShell.Text.Case

namespace FormulaShell.Formula

open FormulaShell.Text

def maxSequence : Nat := 50000

def isBlank (v : Value) : Bool :=
  match v with
  | .blank => true
  | .text s => s.isEmpty
  | _ => false

def absolute (v : Value) : Except String Value := do
  match ← numeric v with
  | .binary x => .ok (.number x.abs)
  | .decimal d => .ok (.decimal d.abs)

/-- Places beyond all that a decimal can have are as good as any other such number. -/
def placeCount (x : Float) : Nat := if x < 4294967296.0 then Number.wholePart x else 4294967295

/-- Decimals are rounded as decimals to places after the point, all else in binary. -/
def rounded (v places : Value) : Except String Value := do
  let digits := Number.trunc (← float places)
  match ← numeric v with
  | .decimal d =>
    if digits >= 0.0 then .ok (.decimal (d.round (placeCount digits)))
    else scaled d.toNumber digits
  | .binary x => scaled x digits
where
  scaled (x digits : Float) : Except String Value :=
    let scale := Float.pow 10.0 digits
    finite (Number.round (x * scale) / scale)

def squareRoot (v : Value) : Except String Value := do
  let x ← float v
  if x < 0.0 then .error "Sqrt requires a non-negative number." else .ok (.number x.sqrt)

/-- The remainder has the sign of the divisor. -/
def modulo (v w : Value) : Except String Value := do
  let n ← float v
  let d ← float w
  if d == 0.0 then .error divisionByZero else finite (n - d * Number.floor (n / d))

def toNumber (v : Value) : Except String Value :=
  match v with
  | .blank => .ok .blank
  | v => (float v).map .number

def toDecimal (v : Value) : Except String Value :=
  match v with
  | .blank => .ok .blank
  | .decimal d => .ok (.decimal d)
  | .text s =>
    match Decimal.read? (trimmed s) with
    | some d => .ok (.decimal d)
    | none => .error ("Can't convert " ++ inQuotes s ++ " to a decimal.")
  | v => do
    let x ← float v
    match Decimal.ofNumber? x with
    | some d => .ok (.decimal d)
    | none => .error ("Can't convert " ++ Number.plainText x ++ " to a decimal.")

def joined (vs : List Value) : Except String Value := do
  let ss ← vs.mapM text
  .ok (.text (String.join ss))

def gather : List Value → Except String Table
  | [] => .ok []
  | .record r :: rest => (gather rest).map (r :: ·)
  | .table t :: rest => (gather rest).map (t ++ ·)
  | .blank :: rest => gather rest
  | v :: _ => .error ("Table expects records or tables but got " ++ v.kind.name ++ ".")

def makeTable (vs : List Value) : Except String Value :=
  (gather vs).map fun t => .table (Table.union t)

def sequence (count start step : Value) : Except String Value := do
  let n := Number.trunc (← float count)
  if 0.0 <= n && n <= Float.ofNat maxSequence then
    let first ← float start
    let increment ← float step
    .ok (.table (Table.ofValues ((List.range (Number.wholePart n)).map fun i =>
      .number (first + increment * Float.ofNat i))))
  else .error ("Sequence count must be between 0 and " ++ toString maxSequence ++ ".")

def rowAt (v i : Value) : Except String Value := do
  let t ← rows "Index" v
  let index := Number.trunc (← float i)
  let missing := "Index " ++ Number.text index ++ " is out of range for a table of "
    ++ toString t.length ++ " rows."
  if 1.0 <= index && index <= Number.ofCount t.length then
    match t[Number.wholePart index - 1]? with
    | some row => .ok (.record row)
    | none => .error missing
  else .error missing

def rowOrBlank : Option Record → Value
  | some r => .record r
  | none => .blank

/-- The result for evaluated arguments; nothing for a number of arguments outside the arity, and
for functions that evaluate their own arguments. -/
def Builtin.result? : Builtin → List Value → Option (Except String Value)
  | .blank, [] => some (.ok .blank)
  | .isBlank, [v] => some (.ok (.boolean (Formula.isBlank v)))
  | .isError, [v] => some (.ok (.boolean v.isError))
  | .error, [v] => some ((Formula.text v).bind .error)
  | .not, [v] => some ((truth v).map fun b => .boolean !b)
  | .abs, [v] => some (absolute v)
  | .round, [v, places] => some (rounded v places)
  | .sqrt, [v] => some (squareRoot v)
  | .mod, [n, d] => some (modulo n d)
  | .len, [v] => some ((Formula.text v).map fun s => .number (Number.ofCount s.length))
  | .upper, [v] => some ((Formula.text v).map fun s => .text (Text.upper s))
  | .lower, [v] => some ((Formula.text v).map fun s => .text (Text.lower s))
  | .concatenate, vs => some (joined vs)
  | .text, [v] => some ((Formula.text v).map .text)
  | .value, [v] => some (toNumber v)
  | .decimal, [v] => some (toDecimal v)
  | .table, vs => some (makeTable vs)
  | .sequence, [n] => some (Formula.sequence n (.number 1.0) (.number 1.0))
  | .sequence, [n, start] => some (Formula.sequence n start (.number 1.0))
  | .sequence, [n, start, step] => some (Formula.sequence n start step)
  | .countRows, [v] =>
    some ((rows "CountRows" v).map fun t => .number (Number.ofCount t.length))
  | .first, [v] => some ((rows "First" v).map fun t => rowOrBlank t.head?)
  | .last, [v] => some ((rows "Last" v).map fun t => rowOrBlank t.getLast?)
  | .index, [v, i] => some (rowAt v i)
  | _, _ => none

end FormulaShell.Formula
