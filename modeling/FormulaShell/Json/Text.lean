import FormulaShell.Json.Document
import FormulaShell.Number.Shortest

namespace FormulaShell.Json

def hexDigit (n : Nat) : Char := if n < 10 then Char.ofNat (48 + n) else Char.ofNat (87 + n)

def escape (c : Char) : List Char :=
  if c = '"' then ['\\', '"']
  else if c = '\\' then ['\\', '\\']
  else if c = '\x08' then ['\\', 'b']
  else if c = '\x0c' then ['\\', 'f']
  else if c = '\n' then ['\\', 'n']
  else if c = '\r' then ['\\', 'r']
  else if c = '\t' then ['\\', 't']
  else if c.toNat < 32 then
    ['\\', 'u', '0', '0', hexDigit (c.toNat / 16), hexDigit (c.toNat % 16)]
  else [c]

def quoted (s : String) : String := String.ofList ('"' :: s.toList.flatMap escape ++ ['"'])

def zeros (n : Nat) : List Char := List.replicate n '0'

/-- Digits with the point after the first `point` of them: positional near one, else with an
exponent that always has a sign. -/
def pointed (ds : List Char) (point : Int) : List Char :=
  let n := ds.length
  if n ≤ point ∧ point ≤ 16 then ds ++ zeros (point - n).toNat ++ ['.', '0']
  else if 0 < point ∧ point ≤ 16 then ds.take point.toNat ++ '.' :: ds.drop point.toNat
  else if -5 < point ∧ point ≤ 0 then '0' :: '.' :: zeros (-point).toNat ++ ds
  else
    let e := 'e' :: (if 0 < point then ['+'] else []) ++ (toString (point - 1)).toList
    match ds with
    | [d] => d :: e
    | d :: rest => d :: '.' :: rest ++ e
    | [] => []

def realText (x : Float) : String :=
  match FormulaShell.Number.parts x with
  | .finite negative m q =>
    let sign := if negative then ['-'] else []
    if m = 0 then String.ofList (sign ++ ['0', '.', '0'])
    else
      let d := FormulaShell.Number.shortest .toEven m q
      let ds := Nat.toDigits 10 d.units
      String.ofList (sign ++ pointed ds (ds.length + d.exponent))
  | _ => "null"

def Number.text : Number → String
  | whole n => toString n
  | real x => realText x

mutual

def Document.compact : Document → String
  | .null => "null"
  | .boolean b => if b then "true" else "false"
  | .number n => n.text
  | .text s => quoted s
  | .array items => "[" ++ String.intercalate "," (itemTexts items) ++ "]"
  | .object members => "\x7b" ++ String.intercalate "," (memberTexts members) ++ "\x7d"

def itemTexts : List Document → List String
  | [] => []
  | d :: rest => d.compact :: itemTexts rest

def memberTexts : List (String × Document) → List String
  | [] => []
  | (name, d) :: rest => (quoted name ++ ":" ++ d.compact) :: memberTexts rest

end

end FormulaShell.Json
