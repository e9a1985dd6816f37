import FormulaShell.Decimal.Binary
import FormulaShell.Number.Read
import FormulaShell.Number.Text
import FormulaShell.Text.Blank
import FormulaShell.Value.Layout

namespace FormulaShell.Formula

open FormulaShell.Text

inductive Numeric where
  | binary (x : Float)
  | decimal (d : Decimal)

namespace Numeric

def toFloat : Numeric → Float
  | binary x => x
  | decimal d => d.toNumber

def toValue : Numeric → Value
  | binary x => .number x
  | decimal d => .decimal d

def isDecimal : Numeric → Bool
  | decimal _ => true
  | binary _ => false

end Numeric

def valueOf : Except String Value → Value
  | .ok v => v
  | .error m => .error m

def inQuotes (s : String) : String := "\"" ++ s ++ "\""

def numeric : Value → Except String Numeric
  | .number x => .ok (.binary x)
  | .decimal d => .ok (.decimal d)
  | .blank => .ok (.binary 0.0)
  | .boolean b => .ok (.binary (if b then 1.0 else 0.0))
  | .text s =>
    match Number.read? (trimmed s) with
    | some x =>
      if Number.isFinite x then .ok (.binary x)
      else .error ("Can't convert " ++ inQuotes s ++ " to a number.")
    | none => .error ("Can't convert " ++ inQuotes s ++ " to a number.")
  | .error m => .error m
  | v => .error ("Expected a number but got " ++ v.kind.name ++ ".")

def float (v : Value) : Except String Float := (numeric v).map Numeric.toFloat

def text : Value → Except String String
  | .text s => .ok s
  | .number x => .ok (Number.text x)
  | .decimal d => .ok d.text
  | .boolean b => .ok (boolText b)
  | .blank => .ok ""
  | .error m => .error m
  | v => .error ("Expected text but got " ++ v.kind.name ++ ".")

def sameLetters (s t : String) : Bool := s.toList.map Char.toLower == t.toList.map Char.toLower

def truth : Value → Except String Bool
  | .boolean b => .ok b
  | .blank => .ok false
  | .number x => .ok (x != 0.0)
  | .decimal d => .ok !d.isZero
  | .text s =>
    if sameLetters s "true" then .ok true
    else if sameLetters s "false" then .ok false
    else .error "Expected a boolean but got Text."
  | .error m => .error m
  | v => .error ("Expected a boolean but got " ++ v.kind.name ++ ".")

/-- A blank is an empty table. -/
def rows (function : String) : Value → Except String Table
  | .table t => .ok t
  | .blank => .ok []
  | .error m => .error m
  | v => .error (function ++ " expects a table but got " ++ v.kind.name ++ ".")

/-- A value for a declared kind. A blank fits every kind, and every value the blank kind. -/
def coerce (v : Value) (k : Kind) : Except String Value :=
  if v.isBlank || v.kind == k || k == .blank then .ok v
  else
    match v, k with
    | .number x, .decimal =>
      match Decimal.ofNumber? x with
      | some d => .ok (.decimal d)
      | none => .error ("Can't convert " ++ Number.plainText x ++ " to Decimal.")
    | .decimal d, .number => .ok (.number d.toNumber)
    | _, _ => .error ("Expected " ++ k.name ++ " but got " ++ v.kind.name ++ ".")

end FormulaShell.Formula
