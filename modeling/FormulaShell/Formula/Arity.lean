namespace FormulaShell.Formula

/-- From `least` to `most` arguments, or any number from `least` on. -/
structure Arity where
  least : Nat
  most : Option Nat
  deriving DecidableEq, Repr

namespace Arity

def exactly (n : Nat) : Arity := ⟨n, some n⟩

def admits (a : Arity) (n : Nat) : Bool :=
  a.least ≤ n &&
    match a.most with
    | some m => n ≤ m
    | none => true

def describe (a : Arity) : String :=
  match a.most with
  | none => "at least " ++ toString a.least
  | some m => if a.least = m then toString m else toString a.least ++ " to " ++ toString m

end Arity

end FormulaShell.Formula
