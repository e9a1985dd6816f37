import FormulaShell.Proofs.Formula.Lasting

namespace FormulaShell

/-- In a value and in everything inside it, all rows of a table have the same names, in the same
order. -/
inductive Value.Homogeneous : Value → Prop where
  | scalar {v : Value} : v.isScalar → Homogeneous v
  | record {r : Record} : (∀ p ∈ r.entries, Homogeneous p.2) → Homogeneous (.record r)
  | table {t : Table} : (∀ r ∈ t, ∀ s ∈ t, r.names = s.names) → (∀ r ∈ t, Homogeneous (.record r)) →
      Homogeneous (.table t)

namespace Value.Homogeneous

open Formula (Entrywise)

theorem entries {r : Record} (h : Homogeneous (.record r)) : ∀ p ∈ r.entries, Homogeneous p.2 := by
  cases h with
  | scalar h => cases h
  | record h => exact h

theorem rows {t : Table} (h : Homogeneous (.table t)) : ∀ r ∈ t, Homogeneous (.record r) := by
  cases h with
  | scalar h => cases h
  | table _ h => exact h

theorem names {t : Table} (h : Homogeneous (.table t)) : ∀ r ∈ t, ∀ s ∈ t, r.names = s.names := by
  cases h with
  | scalar h => cases h
  | table h _ => exact h

theorem entrywise : Entrywise Homogeneous := fun _ => ⟨entries, .record⟩

theorem ofValues {vs : List Value} (h : ∀ v ∈ vs, v.Homogeneous) :
    Homogeneous (.table (Table.ofValues vs)) := by
  refine .table (fun r hr s hs => ?_) (entrywise.ofValues h)
  obtain ⟨v, -, rfl⟩ := List.mem_map.mp hr
  obtain ⟨w, -, rfl⟩ := List.mem_map.mp hs
  rfl

theorem union {t : Table} (h : ∀ r ∈ t, Homogeneous (.record r)) :
    Homogeneous (.table (Table.union t)) := by
  have names (r : Record) (hr : r ∈ Table.union t) : r.names = Table.columns t := by
    obtain ⟨row, -, rfl⟩ := List.mem_map.mp hr
    simp [Fields.names, Function.comp_def]
  exact .table (fun r hr s hs => (names r hr).trans (names s hs).symm)
    (entrywise.union (.scalar rfl) h)

end Value.Homogeneous

namespace Formula

theorem lasting_homogeneous : Lasting Value.Homogeneous where
  scalar := .scalar
  empty := Value.Homogeneous.entrywise.empty
  get? := Value.Homogeneous.entrywise.get?
  insert := Value.Homogeneous.entrywise.insert
  row h hr := h.rows _ hr
  column := .ofValues
  union := .union
  sublist h hu := .table (fun r hr s hs => h.names r (hu.subset hr) s (hu.subset hs))
    fun r hr => h.rows r (hu.subset hr)

/-- Every value that an evaluation finishes with is homogeneous, if the values that it is given for
names are, whatever functions there are and whether or not it may be interrupted. -/
theorem homogeneous_evaluate {σ : Type} {globals : Fields Value} {bindings : Record}
    {functions : Fields UserFunction} {poll : Poll σ} {e : Expr} {world : σ} {v : Value}
    (hg : ∀ n w, globals.get? n = some w → w.Homogeneous)
    (hb : ∀ n w, bindings.get? n = some w → w.Homogeneous)
    (h : (evaluate ⟨globals, bindings, functions, .empty, poll, .standard⟩ e world).1 = .ok v) :
    v.Homogeneous :=
  lasting_homogeneous.evaluate ⟨hg, hb, rfl, rfl⟩ e world h

/-- A table that is known by name, put together with a record of another name. -/
theorem homogeneous_evaluate_table : Value.Homogeneous (.table
    [⟨[("Name", .text "Ann"), ("City", .blank)]⟩,
      ⟨[("Name", .blank), ("City", .text "Oslo")]⟩]) := by
  refine @homogeneous_evaluate Unit ⟨[("people", .table [⟨[("Name", .text "Ann")]⟩])]⟩ .empty .empty
    .never (.call "Table" [.name "people" 6, .record [("City", .text "Oslo")]] 0) () _
    (fun n w h => ?_) (fun n w h => ?_) (by rfl)
  · obtain ⟨rfl, rfl⟩ := Prod.mk.inj (List.mem_singleton.mp (Fields.mem_of_get? h))
    refine .table (by simp) fun r hr => .record fun p hp => ?_
    obtain rfl := List.mem_singleton.mp hr
    obtain rfl := List.mem_singleton.mp hp
    exact .scalar rfl
  · cases h

end Formula

end FormulaShell
