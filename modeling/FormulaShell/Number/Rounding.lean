import FormulaShell.Number.Parts

namespace FormulaShell.Number

/-- The whole part of `m / 2 ^ k` and whether at least a half, and anything at all, was cut off. -/
structure Cut where
  whole : Nat
  half : Bool
  inexact : Bool

def cut (m k : Nat) : Cut :=
  let rest := m % twoTo k
  ⟨m / twoTo k, twoTo k ≤ 2 * rest, rest != 0⟩

def toWhole (choose : (negative : Bool) → Cut → Nat) (x : Float) : Float :=
  match parts x with
  | .finite negative m (.negSucc k) => ofWhole negative (choose negative (cut m (k + 1)))
  | _ => x

def trunc : Float → Float := toWhole fun _ c => c.whole

def floor : Float → Float :=
  toWhole fun negative c => if negative && c.inexact then c.whole + 1 else c.whole

/-- A half goes away from zero. -/
def round : Float → Float := toWhole fun _ c => if c.half then c.whole + 1 else c.whole

def wholePart (x : Float) : Nat :=
  match parts x with
  | .finite false m (.negSucc k) => m / twoTo (k + 1)
  | .finite false m (.ofNat k) => m * twoTo k
  | _ => 0

end FormulaShell.Number
