import FormulaShell.Fields
import FormulaShell.Json.Node
import FormulaShell.Number.Read

namespace FormulaShell.Json

/-- Whole numbers are kept as such if they fit in 64 bits. -/
inductive Number where
  | whole (n : Int)
  | real (x : Float)

/-- Members are in the order of their names. -/
inductive Document where
  | null
  | boolean (b : Bool)
  | number (n : Number)
  | text (s : String)
  | array (items : List Document)
  | object (members : List (String × Document))

/-- Two units of a surrogate pair are one character, and neither may stand alone. -/
def chars? : List Piece → Option (List Char)
  | [] => some []
  | .char c :: rest => (chars? rest).map (c :: ·)
  | .unit n :: rest =>
    if n < 0xd800 ∨ 0xdfff < n then (chars? rest).map (Char.ofNat n :: ·)
    else if 0xdc00 ≤ n then none
    else
      match rest with
      | .unit k :: rest =>
        if 0xdc00 ≤ k ∧ k ≤ 0xdfff then
          (chars? rest).map (Char.ofNat (0x10000 + (n - 0xd800) * 0x400 + (k - 0xdc00)) :: ·)
        else none
      | _ => none

def string? (ps : List Piece) : Option String := (chars? ps).map String.ofList

def significand (s : Nat) : List Char → Nat × List Char
  | [] => (s, [])
  | d :: rest =>
    let next := s * 10 + FormulaShell.Number.digitValue d
    if next < FormulaShell.Number.twoTo 64 then significand next rest else (s, d :: rest)

def powerOfTen (k : Nat) : Float := Float.ofScientific 1 false k

def maxPower : Nat := 308

/-- `x * 10 ^ e` with one rounding more, or two for the least numbers. -/
def scaled? (x : Float) (e : Int) : Option Float :=
  if _h : e.natAbs ≤ maxPower then
    if 0 ≤ e then
      let y := x * powerOfTen e.natAbs
      if FormulaShell.Number.isFinite y then some y else none
    else some (x / powerOfTen e.natAbs)
  else if x == 0.0 then some x
  else if 0 ≤ e then none
  else scaled? (x / powerOfTen maxPower) (e + maxPower)
termination_by e.natAbs
decreasing_by simp only [maxPower] at *; omega

def exponentOf : Option (Bool × List Char) → Int
  | none => 0
  | some (negative, ds) =>
    if negative then -(FormulaShell.Number.digitsValue ds : Int)
    else FormulaShell.Number.digitsValue ds

/-- Digits that do not fit are dropped, those before the point with their place kept. -/
def Numeral.real? (n : Numeral) : Option Float :=
  let (s, dropped) := significand 0 n.whole
  let (s, ignored) := significand s n.fraction
  let places : Int := n.fraction.length - ignored.length
  (scaled? (Float.ofNat s) (dropped.length - places + exponentOf n.exponent)).map
    (FormulaShell.Number.signed n.negative)

/-- Minus zero is no whole number. -/
def Numeral.wholeOf? (n : Numeral) : Option Int :=
  if n.fraction.isEmpty && n.exponent.isNone then
    let s := FormulaShell.Number.digitsValue n.whole
    if n.negative then if 0 < s ∧ s ≤ FormulaShell.Number.twoTo 63 then some (-(s : Int)) else none
    else if s < FormulaShell.Number.twoTo 64 then some s else none
  else none

def Numeral.value? (n : Numeral) : Option Number :=
  match n.wholeOf? with
  | some k => some (.whole k)
  | none => n.real?.map .real

def sortedMembers (ms : List (String × Document)) : List (String × Document) :=
  (Fields.ofList ms).entries.mergeSort fun a b => decide (a.1 ≤ b.1)

mutual

def Document.ofNode? (levels : Nat) : Node → Option Document
  | .null => some .null
  | .boolean b => some (.boolean b)
  | .number n => n.value?.map .number
  | .text ps => (string? ps).map .text
  | .array items =>
    match levels with
    | 0 => none
    | levels + 1 => (itemsOf? levels items).map .array
  | .object members =>
    match levels with
    | 0 => none
    | levels + 1 => (membersOf? levels members).map fun ms => .object (sortedMembers ms)

def itemsOf? (levels : Nat) : List Node → Option (List Document)
  | [] => some []
  | n :: rest => do
    let d ← Document.ofNode? levels n
    let ds ← itemsOf? levels rest
    some (d :: ds)

def membersOf? (levels : Nat) : List (List Piece × Node) → Option (List (String × Document))
  | [] => some []
  | (key, n) :: rest => do
    let name ← string? key
    let d ← Document.ofNode? levels n
    let ds ← membersOf? levels rest
    some ((name, d) :: ds)

end

def maxLevels : Nat := 127

def Document.read? (s : String) : Option Document := (Node.read? s).bind (ofNode? maxLevels)

end FormulaShell.Json
