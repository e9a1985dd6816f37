import FormulaShell.Formula.Operators

namespace FormulaShell.Formula

def numerics : List Value → Except String (List Numeric)
  | [] => .ok []
  | v :: rest =>
    if v.isBlank then numerics rest
    else
      match numeric v with
      | .error m => .error m
      | .ok n => (numerics rest).map (n :: ·)

def columnValues (t : Table) : List Value := t.filterMap fun row => row.get? Table.valueColumn

def addDecimals (acc : Decimal) : List Numeric → Option Decimal
  | [] => some acc
  | .decimal d :: rest =>
    match acc.add? d with
    | some next => addDecimals next rest
    | none => none
  | .binary _ :: rest => addDecimals acc rest

/-- Decimals alone are added as decimals. -/
def total (ns : List Numeric) : Except String Value :=
  if !ns.isEmpty && ns.all Numeric.isDecimal then fitting (addDecimals .zero ns)
  else finite (ns.foldl (fun acc n => acc + n.toFloat) (-0.0))

def numericOrder (a b : Numeric) : Ordering :=
  match a, b with
  | .decimal x, .decimal y => x.compare y
  | a, b => (floatOrder? a.toFloat b.toFloat).getD .eq

/-- The first of the numbers that no later one surpasses in the preferred direction. -/
def extreme (prefer : Ordering) : List Numeric → Option Numeric
  | [] => none
  | n :: rest => some (rest.foldl (fun best m => if numericOrder m best = prefer then m else best) n)

def extremeValue (prefer : Ordering) (ns : List Numeric) : Value :=
  match extreme prefer ns with
  | some n => n.toValue
  | none => .blank

end FormulaShell.Formula
