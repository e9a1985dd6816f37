import FormulaShell.Number.Power

namespace FormulaShell.Number

structure Digits where
  units : Nat
  exponent : Int
  deriving DecidableEq, Repr

/-- The numbers between `low` and `high`, over `scale`, read back as `mid` over `scale`. -/
structure Interval where
  low : Nat
  mid : Nat
  high : Nat
  scale : Nat
  closed : Bool

/-- What reads back as `m * 2 ^ q`. Below a power of two the neighbour is at half the distance,
unless that power is the least one with full precision. -/
def Interval.around (m : Nat) (q : Int) : Interval :=
  let below := if m = twoTo 52 ∧ q ≠ -1074 then 1 else 2
  let shift := (q - 2).toNat
  let scale := (2 - q).toNat
  ⟨(4 * m - below) * twoTo shift, 4 * m * twoTo shift, (4 * m + 2) * twoTo shift,
    twoTo scale, m % 2 = 0⟩

/-- `d` units of `10 ^ k` as a numerator over the interval's scale times `10 ^ (-k)`. -/
def Interval.holds (i : Interval) (d : Nat) (k : Int) : Bool :=
  let value := d * tenTo k.toNat * i.scale
  let unit := tenTo (-k).toNat
  if i.closed then i.low * unit ≤ value && value ≤ i.high * unit
  else i.low * unit < value && value < i.high * unit

inductive Tie where
  | up
  | toEven
  deriving DecidableEq, Repr

def Tie.goesUp (t : Tie) (d twice step : Nat) : Bool :=
  step < twice || (step == twice && (t == up || d % 2 == 1))

def Interval.onGrid? (i : Interval) (t : Tie) (k : Int) : Option Digits :=
  let numerator := i.mid * tenTo (-k).toNat
  let step := i.scale * tenTo k.toNat
  let d := numerator / step
  let upward := t.goesUp d (2 * (numerator % step)) step
  let near := if upward then d + 1 else d
  let far := if upward then d else d + 1
  if i.holds near k then some ⟨near, k⟩
  else if i.holds far k then some ⟨far, k⟩
  else none

def leadingZeros (n d : Nat) : Nat → Nat
  | 0 => 0
  | fuel + 1 => if d ≤ n then 0 else leadingZeros (n * 10) d fuel + 1

/-- The number of digits before the point; zeros after the point count as negative. -/
def Interval.magnitude (i : Interval) : Int :=
  if i.scale ≤ i.mid then (Nat.toDigits 10 (i.mid / i.scale)).length
  else 1 - (leadingZeros i.mid i.scale 330 : Int)

def Digits.strip (fuel : Nat) (d : Digits) : Digits :=
  match fuel with
  | 0 => d
  | fuel + 1 =>
    if d.units ≠ 0 ∧ d.units % 10 = 0 then strip fuel ⟨d.units / 10, d.exponent + 1⟩ else d

/-- Grids from coarse to fine; seventeen digits always suffice. -/
def shortest (t : Tie) (m : Nat) (q : Int) : Digits :=
  let i := Interval.around m q
  let p := i.magnitude
  match (List.range 17).findSome? fun (n : Nat) => i.onGrid? t (p - 1 - n) with
  | some d => d.strip 17
  | none => ⟨0, 0⟩

end FormulaShell.Number
