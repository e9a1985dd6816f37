namespace FormulaShell.Text

/-- The code points at which membership changes, in rising order: the first enters the set. -/
structure CodeSet where
  bounds : List Nat

namespace CodeSet

def member (inside : Bool) : List Nat → Nat → Bool
  | [], _ => inside
  | b :: rest, n => if n < b then inside else member (!inside) rest n

def contains (s : CodeSet) (c : Char) : Bool := member false s.bounds c.toNat

end CodeSet

end FormulaShell.Text
