import FormulaShell.Value.Equality

namespace FormulaShell.Value

theorem beq_blank : (blank == blank) = true := by
  change beq _ _ = _
  rw [beq]

theorem blank_beq (v : Value) : (blank == v) = v.isBlank := by
  change beq _ _ = _
  cases v <;> simp only [beq, isBlank]

theorem beq_blank_right (v : Value) : (v == blank) = v.isBlank := by
  change beq _ _ = _
  cases v <;> simp only [beq, isBlank]

theorem beq_boolean (a b : Bool) : (boolean a == boolean b) = (a == b) := by
  change beq _ _ = _
  rw [beq]

theorem beq_number (x y : Float) : (number x == number y) = (x == y) := by
  change beq _ _ = _
  rw [beq]

theorem beq_text (s t : String) : (text s == text t) = (s == t) := by
  change beq _ _ = _
  rw [beq]

theorem beq_record (xs ys : List (String × Value)) :
    (record ⟨xs⟩ == record ⟨ys⟩) = beqEntries xs ys := by
  change beq _ _ = _
  rw [beq, beqFields]

theorem beq_table (t u : Table) : (table t == table u) = beqRows t u := by
  change beq _ _ = _
  rw [beq]

theorem beqEntries_cons {n : String} {w v : Value} {ws vs : List (String × Value)}
    (h : (w == v) = true) (hs : beqEntries ws vs = true) :
    beqEntries ((n, w) :: ws) ((n, v) :: vs) = true := by
  rw [beqEntries, show beq w v = true from h, hs, beq_self_eq_true]
  rfl

theorem beqRows_cons {w v : Value} {ws vs : List Value} (h : (w == v) = true)
    (hs : beqRows (Table.ofValues ws) (Table.ofValues vs) = true) :
    beqRows (Table.ofValues (w :: ws)) (Table.ofValues (v :: vs)) = true := by
  change beqRows (Table.valueRow w :: Table.ofValues ws)
    (Table.valueRow v :: Table.ofValues vs) = true
  rw [beqRows, hs, Table.valueRow, Table.valueRow, beqFields,
    beqEntries_cons h (by rw [beqEntries])]
  rfl

end FormulaShell.Value
