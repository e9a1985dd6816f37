import FormulaShell.Decimal.Division
import FormulaShell.Formula.Conversion
import FormulaShell.Formula.Expr
import FormulaShell.Value.Equality

namespace FormulaShell.Formula

def outOfRange : String := "Numeric result is out of range."

def divisionByZero : String := "Division by zero."

def finite (x : Float) : Except String Value :=
  if Number.isFinite x then .ok (.number x) else .error outOfRange

def fitting : Option Decimal → Except String Value
  | some d => .ok (.decimal d)
  | none => .error outOfRange

inductive ArithmeticOp where
  | add | sub | mul | div | pow
  deriving DecidableEq, Repr

def calculateDecimal (op : ArithmeticOp) (x y : Decimal) : Except String Value :=
  match op with
  | .add => fitting (x.add? y)
  | .sub => fitting (x.sub? y)
  | .mul => fitting (x.mul? y)
  | .div => if y.isZero then .error divisionByZero else fitting (x.div? y)
  | .pow => finite (Float.pow x.toNumber y.toNumber)

def calculateBinary (op : ArithmeticOp) (x y : Float) : Except String Value :=
  match op with
  | .add => finite (x + y)
  | .sub => finite (x - y)
  | .mul => finite (x * y)
  | .div => if y == 0.0 then .error divisionByZero else finite (x / y)
  | .pow => finite (Float.pow x y)

def calculate (op : ArithmeticOp) (l r : Value) : Except String Value := do
  let a ← numeric l
  let b ← numeric r
  match a, b with
  | .decimal x, .decimal y => calculateDecimal op x y
  | a, b => calculateBinary op a.toFloat b.toFloat

/-- Numbers are equal as numbers, whatever their kinds; all else is compared part by part. -/
def equal (l r : Value) : Bool :=
  match l, r with
  | .decimal x, .decimal y => x.eqv y
  | .number x, .number y => x == y
  | .number x, .decimal y => x == y.toNumber
  | .decimal x, .number y => x.toNumber == y
  | l, r => l == r

/-- No order where one of them is not a number. -/
def floatOrder? (x y : Float) : Option Ordering :=
  if x < y then some .lt else if x == y then some .eq else if y < x then some .gt else none

def textOrder (s t : String) : Ordering := if s < t then .lt else if s = t then .eq else .gt

def boolOrder (a b : Bool) : Ordering := compare a.toNat b.toNat

/-- The value as a number in a comparison, in which a blank is zero. -/
def comparable? : Value → Option Float
  | .number x => some x
  | .decimal d => some d.toNumber
  | .blank => some 0.0
  | _ => none

def order (l r : Value) : Except String (Option Ordering) :=
  match l, r with
  | .text s, .text t => .ok (some (textOrder s t))
  | .boolean a, .boolean b => .ok (some (boolOrder a b))
  | .decimal x, .decimal y => .ok (some (x.compare y))
  | l, r =>
    match comparable? l, comparable? r with
    | some x, some y => .ok (floatOrder? x y)
    | _, _ => .error ("Can't compare " ++ l.kind.name ++ " with " ++ r.kind.name ++ ".")

def ordered (holds : Ordering → Bool) (l r : Value) : Except String Value :=
  (order l r).map fun o => .boolean (o.any holds)

def concat (l r : Value) : Except String Value := do
  let s ← text l
  let t ← text r
  .ok (.text (s ++ t))

def applyBinary (op : BinaryOp) (l r : Value) : Except String Value :=
  match op with
  | .concat => concat l r
  | .eq => .ok (.boolean (equal l r))
  | .ne => .ok (.boolean !(equal l r))
  | .lt => ordered Ordering.isLT l r
  | .le => ordered Ordering.isLE l r
  | .gt => ordered Ordering.isGT l r
  | .ge => ordered Ordering.isGE l r
  | .add => calculate .add l r
  | .sub => calculate .sub l r
  | .mul => calculate .mul l r
  | .div => calculate .div l r
  | .pow => calculate .pow l r
  | .and => do
    let a ← truth l
    let b ← truth r
    .ok (.boolean (a && b))
  | .or => do
    let a ← truth l
    let b ← truth r
    .ok (.boolean (a || b))

/-- An error on the left goes before one on the right. -/
def binary (op : BinaryOp) (l r : Value) : Value :=
  match l, r with
  | .error m, _ => .error m
  | _, .error m => .error m
  | l, r => valueOf (applyBinary op l r)

def negate (v : Value) : Except String Value := do
  match ← numeric v with
  | .binary x => .ok (.number (-x))
  | .decimal d => .ok (.decimal d.neg)

def unary (op : UnaryOp) (v : Value) : Value :=
  match op with
  | .neg => valueOf (negate v)
  | .not => valueOf ((truth v).map fun b => .boolean !b)

def percent (v : Value) : Value := valueOf (calculate .div v (.number 100.0))

def column (t : Table) (name : String) : Value :=
  if !t.isEmpty && !t.columns.contains name then
    .error ("Column '" ++ name ++ "' doesn't exist.")
  else .table (Table.ofValues (t.map fun row => (row.get? name).getD .blank))

def fieldOf (v : Value) (name : String) : Value :=
  match v with
  | .record r => (r.get? name).getD (.error ("Field '" ++ name ++ "' doesn't exist."))
  | .table t => column t name
  | .blank => .blank
  | .error m => .error m
  | v => .error ("Can't access field '" ++ name ++ "' of a " ++ v.kind.name ++ " value.")

end FormulaShell.Formula
