import FormulaShell.Decimal.Basic

namespace FormulaShell.Decimal

def roundHalfEven (n d : Nat) : Nat :=
  let q := n / d
  let twice := 2 * (n % d)
  if twice < d ∨ (twice = d ∧ q % 2 = 0) then q else q + 1

def roundHalfUp (n d : Nat) : Nat := if 2 * (n % d) < d then n / d else n / d + 1

/-- `n / 10 ^ scale` with as many places as fit, and with its sign even if it vanishes. -/
def fit? (negative : Bool) (n scale : Nat) : Option Decimal :=
  (List.range (scale + 1)).findSome? fun k =>
    ofSigned? negative (roundHalfEven n (Number.tenTo k)) (scale - k)

/-- A zero operand leaves the other one as it is, places included. -/
def add? (x y : Decimal) : Option Decimal :=
  if x.isZero then some y
  else if y.isZero then some x
  else
    let scale := max x.scale y.scale
    let total := (x.units + y.units) / (Number.tenTo (28 - scale) : Int)
    fit? (total < 0) total.natAbs scale

def sub? (x y : Decimal) : Option Decimal := add? x (if y.isZero then y else y.neg)

def isSmall (d : Decimal) : Bool := d.mantissa < Number.twoTo 32

def dropSignOfZero (d : Decimal) : Decimal := { d with negative := d.negative && !d.isZero }

/-- Small operands with more than 47 places between them make less than a half of the last place
there is. Where a product vanishes otherwise it keeps its places, and its sign unless both operands
are small. -/
def mul? (x y : Decimal) : Option Decimal :=
  let scale := x.scale + y.scale
  let small := x.isSmall && y.isSmall
  if x.isZero || y.isZero || (small && 47 < scale) then some zero
  else
    let product := fit? (x.negative != y.negative) (x.mantissa * y.mantissa) scale
    if small then product.map dropSignOfZero else product

/-- A half goes away from zero. A decimal with no more places than asked for stays as it is. -/
def round (d : Decimal) (places : Nat) : Decimal :=
  if d.scale ≤ places then d
  else if d.isZero then { d with scale := min places 28, scale_le := by omega }
  else
    (ofParts? d.negative (roundHalfUp d.mantissa (Number.tenTo (d.scale - places))) places).getD d

end FormulaShell.Decimal
