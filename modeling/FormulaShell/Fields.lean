namespace FormulaShell

structure Fields (α : Type) where
  entries : List (String × α)
  deriving DecidableEq, Repr

namespace Fields

variable {α : Type}

def empty : Fields α := ⟨[]⟩

instance : Inhabited (Fields α) := ⟨empty⟩

def put (name : String) (value : α) : List (String × α) → List (String × α)
  | [] => [(name, value)]
  | (n, v) :: rest => if n = name then (n, value) :: rest else (n, v) :: put name value rest

def insert (f : Fields α) (name : String) (value : α) : Fields α := ⟨put name value f.entries⟩

def ofList (pairs : List (String × α)) : Fields α :=
  pairs.foldl (fun f p => f.insert p.1 p.2) empty

def find? (name : String) : List (String × α) → Option α
  | [] => none
  | (n, v) :: rest => if n = name then some v else find? name rest

def get? (f : Fields α) (name : String) : Option α := find? name f.entries

def contains (f : Fields α) (name : String) : Bool := (f.get? name).isSome

def names (f : Fields α) : List String := f.entries.map (·.1)

def size (f : Fields α) : Nat := f.entries.length

def isEmpty (f : Fields α) : Bool := f.entries.isEmpty

def erase (f : Fields α) (name : String) : Fields α := ⟨f.entries.filter (·.1 != name)⟩

end Fields

end FormulaShell
