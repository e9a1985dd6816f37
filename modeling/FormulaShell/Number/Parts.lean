import FormulaShell.Number.Power

namespace FormulaShell.Number

/-- `finite s m q` is `m * 2 ^ q`, negated if `s`. -/
inductive Parts where
  | finite (negative : Bool) (mantissa : Nat) (exponent : Int)
  | infinite (negative : Bool)
  | nan
  deriving DecidableEq, Repr

def parts (x : Float) : Parts :=
  let bits := x.toBits.toNat
  let negative := bits / twoTo 63 == 1
  let field : Nat := bits / twoTo 52 % twoTo 11
  let fraction := bits % twoTo 52
  if field = 2047 then if fraction = 0 then .infinite negative else .nan
  else if field = 0 then .finite negative fraction (-1074)
  else .finite negative (fraction + twoTo 52) ((field : Int) - 1075)

def isFinite (x : Float) : Bool :=
  match parts x with
  | .finite .. => true
  | _ => false

def signed (negative : Bool) (x : Float) : Float := if negative then -x else x

def ofWhole (negative : Bool) (n : Nat) : Float := signed negative (Float.ofNat n)

def ofCount (n : Nat) : Float := n.toUInt64.toFloat

end FormulaShell.Number
