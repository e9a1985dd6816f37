import FormulaShell.Decimal.Arithmetic

namespace FormulaShell.Decimal

/-- A quotient so far: `quotient + remainder / divisor` over `10 ^ scale`. -/
structure LongDivision where
  quotient : Nat
  remainder : Nat
  scale : Int

def room (q : Nat) (scale : Int) : Nat :=
  let fits (x : Nat) : Bool := (x : Int) + scale ≤ 28 && q * Number.tenTo x < capacity
  ((List.range 10).filter fits).foldl max 0

/-- A quotient that has just passed the capacity gives up one place. -/
def giveUp? (q : Nat) (sticky : Bool) (scale : Int) : Option (Nat × Int) :=
  if scale < 1 then none
  else
    let digit := q % 10
    let up := 5 < digit || (digit == 5 && (sticky || q / 10 % 2 == 1))
    some (if up then q / 10 + 1 else q / 10, scale - 1)

/-- No more places can be added: the remainder rounds the quotient, half to even. -/
def settle? (divisor : Nat) (p : LongDivision) : Option (Nat × Int) :=
  let twice := 2 * p.remainder
  if divisor < twice ∨ (twice = divisor ∧ p.quotient % 2 = 1) then
    if p.quotient + 1 < capacity then some (p.quotient + 1, p.scale)
    else giveUp? (p.quotient + 1) true p.scale
  else some (p.quotient, p.scale)

/-- How many places to add next, `none` if the scale stays below zero for good. -/
def block? (p : LongDivision) : Option Nat :=
  if p.remainder = 0 then some (min 9 (-p.scale).toNat)
  else
    let x := room p.quotient p.scale
    if x < 9 ∧ (x : Int) + p.scale < 0 then none else some x

def extend? (divisor : Nat) (p : LongDivision) : Option (Nat × Int) :=
  if p.remainder = 0 ∧ 0 ≤ p.scale then some (p.quotient, p.scale)
  else
    match block? p with
    | none => none
    | some x =>
      if _h : x = 0 ∨ 28 ≤ p.scale then settle? divisor p
      else
        let power := Number.tenTo x
        let scaled := p.remainder * power
        let quotient := p.quotient * power + scaled / divisor
        if p.quotient * power < capacity then
          if quotient < capacity then
            extend? divisor ⟨quotient, scaled % divisor, p.scale + x⟩
          else giveUp? quotient (scaled % divisor != 0) (p.scale + x)
        else none
termination_by (28 - p.scale).toNat
decreasing_by
  simp only [not_or, Int.not_le] at _h
  show (28 - (p.scale + (x : Int))).toNat < (28 - p.scale).toNat
  omega

def dropZeros (divides places : Nat) (r : Nat × Nat) : Nat × Nat :=
  if r.1 % divides = 0 ∧ places ≤ r.2 ∧ r.1 % Number.tenTo places = 0 then
    (r.1 / Number.tenTo places, r.2 - places)
  else r

/-- Blocks of eight zeros go only from numbers whose low 32 bits are clear. -/
def tidy (r : Nat × Nat) : Nat × Nat :=
  let eight := dropZeros (Number.twoTo 32) 8
  dropZeros 2 1 (dropZeros 4 2 (dropZeros 16 4 (eight (eight (eight r)))))

/-- A zero dividend has no places. An exact quotient of the mantissas keeps the difference of the
scales; any other is tidied. -/
def div? (x y : Decimal) : Option Decimal :=
  if x.isZero then some zero
  else
    let start : LongDivision :=
      ⟨x.mantissa / y.mantissa, x.mantissa % y.mantissa, (x.scale : Int) - y.scale⟩
    match extend? y.mantissa start with
    | none => none
    | some (q, scale) =>
      let r := if start.remainder = 0 then (q, scale.toNat) else tidy (q, scale.toNat)
      ofParts? (x.negative != y.negative) r.1 r.2

end FormulaShell.Decimal
