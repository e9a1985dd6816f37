import FormulaShell.Decimal.Arithmetic
import FormulaShell.Number.Rounding

namespace FormulaShell.Decimal

open FormulaShell.Number

structure Tens where
  mantissa : Nat
  exponent : Int

/-- Divides by `2 ^ n` in powers of ten: halves while that is exact, else multiplies by five. -/
def halve : Nat → Tens → Tens
  | 0, t => t
  | n + 1, t =>
    if t.mantissa % 2 = 0 ∨ capacity ≤ t.mantissa * 5 then
      halve n ⟨t.mantissa / 2, t.exponent + 1⟩
    else halve n ⟨t.mantissa * 5, t.exponent⟩

/-- Multiplies by `2 ^ n` in powers of ten, given up where far too many digits would be lost. -/
def double? : Nat → Tens → Option Tens
  | 0, t => some t
  | n + 1, t =>
    if t.mantissa < twoTo 95 then double? n ⟨t.mantissa * 2, t.exponent - 1⟩
    else if t.exponent * 2 > n + 1 then none
    else double? n ⟨t.mantissa / 5, t.exponent⟩

def widen? : Nat → Nat → Option Nat
  | 0, m => some m
  | n + 1, m => if m * 10 < capacity then widen? n (m * 10) else none

def tenth (m : Nat) : Nat := roundHalfUp m 10

/-- Brings the places down to 28, and a number that vanishes on the way to zero. -/
def shorten : Nat → Nat → Nat → Nat × Nat
  | 0, m, places => (m, places)
  | fuel + 1, m, places =>
    if places ≤ 28 then (m, places)
    else if m / 10 = 0 then (0, 0)
    else shorten fuel (tenth m) (places - 1)

def narrow (m : Nat) : Nat → Nat × Nat
  | 0 => (m, 0)
  | places + 1 => if twoTo 52 ≤ m then narrow (tenth m) places else (m, places + 1)

def clean (m : Nat) : Nat → Nat × Nat
  | 0 => (m, 0)
  | places + 1 => if m % 10 = 0 then clean (m / 10) places else (m, places + 1)

def ofFinite? (negative : Bool) (m : Nat) (q : Int) : Option Decimal :=
  let tens :=
    match q with
    | .ofNat n => double? n ⟨m, n⟩
    | .negSucc n => some (halve (n + 1) ⟨m, -(n + 1 : Int)⟩)
  tens.bind fun t =>
    (widen? t.exponent.toNat t.mantissa).bind fun wide =>
      let places := (-t.exponent).toNat
      let short := shorten places wide places
      let dense := narrow short.1 short.2
      let result := clean dense.1 dense.2
      ofSigned? negative result.1 result.2

def ofNumber? (x : Float) : Option Decimal :=
  match parts x with
  | .finite negative 0 _ => some { zero with negative := negative }
  | .finite negative m q => ofFinite? negative m q
  | _ => none

def toNumber (d : Decimal) : Float :=
  if d.scale = 0 then signed (d.negative && !d.isZero) (Float.ofNat d.mantissa)
  else
    let power := Float.ofNat (tenTo d.scale)
    let whole := Float.ofNat (d.mantissa / tenTo d.scale)
    let fraction := Float.ofNat (d.mantissa % tenTo d.scale) / power
    signed d.negative
      (if fraction == 0.0 then whole else Number.round ((whole + fraction) * power) / power)

end FormulaShell.Decimal
