import FormulaShell.Number.Parts
import FormulaShell.Text.Letter

namespace FormulaShell.Number

open FormulaShell.Text

def digitValue (c : Char) : Nat := c.toNat - 48

def digitsValue (ds : List Char) : Nat := ds.foldl (fun n d => 10 * n + digitValue d) 0

/-- The nearest number to `m * 10 ^ e`. Exponents that decide the answer alone are cut off first. -/
def ofDecimal (m : Nat) (e : Int) : Float :=
  let top : Int := (Nat.toDigits 10 m).length + e
  if m = 0 ∨ top < -330 then 0.0
  else if 310 < top then 1.0 / 0.0
  else Float.ofScientific m (e < 0) e.natAbs

def readExponent? : List Char → Option Int
  | [] => some 0
  | c :: rest =>
    if c ≠ 'e' ∧ c ≠ 'E' then none
    else
      let (negative, ds) :=
        match rest with
        | '-' :: ds => (true, ds)
        | '+' :: ds => (false, ds)
        | ds => (false, ds)
      if ds.isEmpty || !ds.all isAsciiDigit then none
      else some (if negative then -(digitsValue ds : Int) else digitsValue ds)

def readUnsigned? (cs : List Char) : Option Float :=
  let whole := cs.takeWhile isAsciiDigit
  let rest := cs.dropWhile isAsciiDigit
  let (fraction, rest) :=
    match rest with
    | '.' :: tail => (tail.takeWhile isAsciiDigit, tail.dropWhile isAsciiDigit)
    | _ => ([], rest)
  if whole.isEmpty && fraction.isEmpty then none
  else
    (readExponent? rest).map fun e => ofDecimal (digitsValue (whole ++ fraction)) (e - fraction.length)

def readWord? (cs : List Char) : Option Float :=
  let word := String.ofList (cs.map Char.toLower)
  if word = "inf" ∨ word = "infinity" then some (1.0 / 0.0)
  else if word = "nan" then some (0.0 / 0.0)
  else none

def readSigned? (cs : List Char) : Option Float :=
  (readUnsigned? cs).orElse fun _ => readWord? cs

def read? (s : String) : Option Float :=
  match s.toList with
  | '-' :: cs => (readSigned? cs).map (-·)
  | '+' :: cs => readSigned? cs
  | cs => readSigned? cs

end FormulaShell.Number
