import FormulaShell.Workbook.Basic

namespace FormulaShell

open FormulaShell.Formula

/-- The names that the body of a function reads from outside. -/
def Formula.UserFunction.outerNames (f : UserFunction) : List String :=
  f.body.freeNames.filter fun n => f.params.all fun p => p.1 != n

def addNames (names : List String) (more : List String) : List String :=
  more.foldl (fun acc n => if acc.contains n then acc else acc ++ [n]) names

def searchLength : List (String × UserFunction) → Nat
  | [] => 0
  | p :: functions => p.2.body.callNames.length + 1 + searchLength functions

theorem searchLength_filter_le (functions : List (String × UserFunction)) (f : String) :
    searchLength (functions.filter (·.1 != f)) ≤ searchLength functions := by
  induction functions with
  | nil => simp [searchLength]
  | cons p functions ih =>
    by_cases hp : p.1 = f
    · rw [List.filter_cons_of_neg (by simp [hp])]
      exact Nat.le_trans ih (Nat.le_add_left _ _)
    · rw [List.filter_cons_of_pos (by simpa using hp)]
      exact Nat.add_le_add_left ih _

theorem searchLength_cons (p : String × UserFunction) (functions : List (String × UserFunction)) :
    searchLength (p :: functions) =
      p.2.body.callNames.length + 1 + searchLength functions := rfl

theorem searchLength_filter_lt {functions : List (String × UserFunction)} {f : String}
    {u : UserFunction} (h : Fields.find? f functions = some u) :
    searchLength (functions.filter (·.1 != f)) + u.body.callNames.length <
      searchLength functions := by
  induction functions with
  | nil => simp [Fields.find?] at h
  | cons p functions ih =>
    by_cases hp : p.1 = f
    · rw [Fields.find?, if_pos hp, Option.some.injEq] at h
      rw [List.filter_cons_of_neg (by simp [hp]), searchLength_cons, h]
      have hle := searchLength_filter_le functions f
      omega
    · rw [Fields.find?, if_neg hp] at h
      have hlt := ih h
      rw [List.filter_cons_of_pos (by simpa using hp), searchLength_cons, searchLength_cons]
      omega

/-- Adds the outer names of all functions that can be reached from `pending`. A function leaves the
table when it is met. -/
def reach (functions : Fields UserFunction) (names : List String) : List String → List String
  | [] => names
  | f :: pending =>
    match _h : functions.get? f with
    | none => reach functions names pending
    | some fn =>
      reach (functions.erase f) (addNames names fn.outerNames) (fn.body.callNames.reverse ++ pending)
termination_by pending => searchLength functions.entries + pending.length
decreasing_by
  · simp
  · have hlt := searchLength_filter_lt _h
    rw [List.length_append, List.length_reverse, List.length_cons]
    show searchLength (functions.entries.filter (·.1 != f)) + _ < _
    omega

def Workbook.dependencies {σ : Type} (w : Workbook σ) (e : Expr) : List String :=
  reach w.functions e.freeNames e.callNames.reverse

end FormulaShell
