import FormulaShell.Number.Power

namespace FormulaShell

def Decimal.capacity : Nat := Number.twoTo 96

/-- The value is `mantissa / 10 ^ scale`, negated if `negative`. Zero may have a sign. -/
structure Decimal where
  negative : Bool
  mantissa : Nat
  scale : Nat
  mantissa_lt : mantissa < Decimal.capacity
  scale_le : scale ≤ 28
  deriving DecidableEq

namespace Decimal

def zero : Decimal := ⟨false, 0, 0, by decide, by decide⟩

instance : Inhabited Decimal := ⟨zero⟩

def ofSigned? (negative : Bool) (mantissa scale : Nat) : Option Decimal :=
  if h : mantissa < capacity ∧ scale ≤ 28 then some ⟨negative, mantissa, scale, h.1, h.2⟩
  else none

/-- The same, but zero gets no sign. -/
def ofParts? (negative : Bool) (mantissa scale : Nat) : Option Decimal :=
  ofSigned? (negative && mantissa != 0) mantissa scale

def isZero (d : Decimal) : Bool := d.mantissa == 0

def neg (d : Decimal) : Decimal := { d with negative := !d.negative }

def abs (d : Decimal) : Decimal := { d with negative := false }

/-- The value in units of `10 ^ (-28)`, in which all decimals are whole. -/
def units (d : Decimal) : Int :=
  let n : Nat := d.mantissa * Number.tenTo (28 - d.scale)
  if d.negative then -n else n

def compare (x y : Decimal) : Ordering := Ord.compare x.units y.units

/-- Scale and the sign of zero make no difference. -/
def eqv (x y : Decimal) : Bool := x.units == y.units

def text (d : Decimal) : String :=
  let digits := Nat.toDigits 10 d.mantissa
  let padded := List.replicate (d.scale + 1 - digits.length) '0' ++ digits
  let split := padded.length - d.scale
  let body := if d.scale = 0 then padded else padded.take split ++ '.' :: padded.drop split
  (if d.negative then "-" else "") ++ String.ofList body

end Decimal

end FormulaShell
