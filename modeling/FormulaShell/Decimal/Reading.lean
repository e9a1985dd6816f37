import FormulaShell.Decimal.Arithmetic
import FormulaShell.Text.Letter

namespace FormulaShell.Decimal

open FormulaShell.Text

structure Scan where
  mantissa : Nat
  scale : Nat
  point : Bool
  digits : Bool

def isTailChar (c : Char) : Bool := isAsciiDigit c || c == '_'

def stepUp? (negative : Bool) (s : Scan) : Option Decimal :=
  if s.mantissa + 1 < capacity then ofParts? negative (s.mantissa + 1) s.scale
  else if s.scale = 0 then none
  else ofParts? negative (roundHalfUp (s.mantissa + 1) 10) (s.scale - 1)

/-- Far enough below 64 bits for another digit. -/
def wordLimit : Nat := (Number.twoTo 64 - 1) / 10 - 255

/-- The character of a tail that decides how it is rounded. An underscore at its start counts as a
zero after few digits, and is skipped after many. -/
def decisive? (s : Scan) (tail : List Char) : Option Char :=
  if s.mantissa / 10 < wordLimit then tail.head? else tail.find? isAsciiDigit

def roundOff? (negative : Bool) (s : Scan) (tail : List Char) : Option Decimal :=
  if !tail.all isTailChar then none
  else if (decisive? s tail).any fun c => isAsciiDigit c && '5' ≤ c then stepUp? negative s
  else ofParts? negative s.mantissa s.scale

def scan? (negative : Bool) (s : Scan) : List Char → Option Decimal
  | [] => if s.digits then ofParts? negative s.mantissa s.scale else none
  | c :: rest =>
    if s.point ∧ 28 ≤ s.scale then roundOff? negative s (c :: rest)
    else if isAsciiDigit c then
      let mantissa := 10 * s.mantissa + (c.toNat - 48)
      if mantissa < capacity then
        scan? negative ⟨mantissa, if s.point then s.scale + 1 else 0, s.point, true⟩ rest
      else if s.point then roundOff? negative s (c :: rest)
      else none
    else if c = '.' ∧ !s.point then scan? negative { s with point := true } rest
    else if c = '_' ∧ s.digits then scan? negative s rest
    else none

def readPlain? (cs : List Char) : Option Decimal :=
  match cs with
  | '-' :: rest => scan? true ⟨0, 0, false, false⟩ rest
  | '+' :: rest => scan? false ⟨0, 0, false, false⟩ rest
  | rest => scan? false ⟨0, 0, false, false⟩ rest

def readPower? (cs : List Char) : Option Nat :=
  let ds :=
    match cs with
    | '+' :: rest => rest
    | rest => rest
  let n := ds.foldl (fun n d => 10 * n + (d.toNat - 48)) 0
  if ds.isEmpty || !ds.all isAsciiDigit || 28 < n then none else some n

/-- Zeros at the end of the fraction go away, and so does the sign of zero. -/
def strip (d : Decimal) : Decimal :=
  let kept := (List.range (d.scale + 1)).findSome? fun s =>
    let drop := Number.tenTo (d.scale - s)
    if d.mantissa % drop = 0 then ofParts? d.negative (d.mantissa / drop) s else none
  kept.getD d

def raise? (d : Decimal) (power : Nat) : Option Decimal :=
  if power ≤ d.scale then
    some { d with scale := d.scale - power, scale_le := by have := d.scale_le; omega }
  else
    match ofParts? false (Number.tenTo power) 0 with
    | none => none
    | some ten => (d.mul? ten).map strip

/-- Places beyond the 28th are rounded away, and a sign stays even if nothing else does. -/
def lower? (d : Decimal) (power : Nat) : Option Decimal :=
  let surplus := d.scale + power - 28
  let mantissa := roundHalfUp d.mantissa (Number.tenTo surplus)
  some ((ofSigned? d.negative mantissa (d.scale + power - surplus)).getD d)

/-- A text that is not a plain decimal is read in parts, before and after its first exponent
mark. -/
def read? (s : String) : Option Decimal :=
  let cs := s.toList
  (readPlain? cs).orElse fun _ =>
    let isMark (c : Char) := c == 'e' || c == 'E'
    match readPlain? (cs.takeWhile (!isMark ·)), cs.dropWhile (!isMark ·) with
    | some d, _ :: '-' :: power => (readPower? power).bind (lower? d)
    | some d, _ :: power => (readPower? power).bind (raise? d)
    | _, _ => none

end FormulaShell.Decimal
