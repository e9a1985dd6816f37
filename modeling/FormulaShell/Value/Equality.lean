import FormulaShell.Value.Basic

namespace FormulaShell.Value

mutual

def beq : Value → Value → Bool
  | blank, blank => true
  | error m, error n => m == n
  | boolean a, boolean b => a == b
  | number x, number y => x == y
  | decimal x, decimal y => x.eqv y
  | text s, text t => s == t
  | record r, record s => beqFields r s
  | table t, table u => beqRows t u
  | untyped s, untyped t => s == t
  | _, _ => false

def beqFields : Fields Value → Fields Value → Bool
  | ⟨xs⟩, ⟨ys⟩ => beqEntries xs ys

def beqEntries : List (String × Value) → List (String × Value) → Bool
  | [], [] => true
  | (m, v) :: xs, (n, w) :: ys => m == n && beq v w && beqEntries xs ys
  | _, _ => false

def beqRows : List (Fields Value) → List (Fields Value) → Bool
  | [], [] => true
  | r :: xs, s :: ys => beqFields r s && beqRows xs ys
  | _, _ => false

end

instance : BEq Value := ⟨beq⟩

end FormulaShell.Value
