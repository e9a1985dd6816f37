namespace FormulaShell

/-- A value and the rest after it, which is shorter than `bound`. -/
structure Parsed (τ α : Type) (bound : Nat) where
  value : α
  rest : List τ
  shorter : rest.length < bound

namespace Parsed

variable {τ α β : Type} {m n : Nat} {t : τ} {rest : List τ}

def map (f : α → β) (r : Parsed τ α n) : Parsed τ β n := ⟨f r.value, r.rest, r.shorter⟩

def unused (value : α) (ts : List τ) : Parsed τ α (ts.length + 1) :=
  ⟨value, ts, Nat.lt_succ_self ts.length⟩

def used (value : α) (t : τ) (rest : List τ) : Parsed τ α (t :: rest).length :=
  ⟨value, rest, Nat.lt_succ_self rest.length⟩

def loosen (r : Parsed τ α n) : Parsed τ α (n + 1) :=
  ⟨r.value, r.rest, Nat.lt_succ_of_lt r.shorter⟩

def past (t : τ) (r : Parsed τ α rest.length) : Parsed τ α (t :: rest).length := r.loosen

def follow (p : Parsed τ α n) (q : Parsed τ β p.rest.length) : Parsed τ β n :=
  ⟨q.value, q.rest, Nat.lt_trans q.shorter p.shorter⟩

def followTail (p : Parsed τ α n) (q : Parsed τ β (p.rest.length + 1)) : Parsed τ β n :=
  ⟨q.value, q.rest, Nat.lt_of_lt_of_le q.shorter p.shorter⟩

def within (h : m ≤ n) (r : Parsed τ α m) : Parsed τ α n :=
  ⟨r.value, r.rest, Nat.lt_of_lt_of_le r.shorter h⟩

def under (h : m < n) (r : Parsed τ α m) : Parsed τ α n :=
  ⟨r.value, r.rest, Nat.lt_trans r.shorter h⟩

def after (h : (t :: rest).length < n) (r : Parsed τ α rest.length) : Parsed τ α n :=
  (r.past t).under h

end Parsed

end FormulaShell
