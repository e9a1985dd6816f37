import FormulaShell.Proofs.Fields
import FormulaShell.Workbook.Update

namespace FormulaShell.Workbook

open FormulaShell.Formula

variable {σ : Type} {dirty : List String} {w : Workbook σ} {world : σ} {f : NamedFormula}
  {fs : List NamedFormula}

def refreshed (w : Workbook σ) (world : σ) (f : NamedFormula) : Workbook σ :=
  w.setValue f.name (settledValue (w.settle f.expr world).1)

theorem recalculate_dirty (h : f.dependencies.any dirty.contains) :
    (recalculate dirty w world (f :: fs)).1.workbook =
      (recalculate (f.name :: dirty) (w.refreshed world f) (w.settle f.expr world).2
        fs).1.workbook := by
  rw [recalculate, if_pos h]
  rfl

theorem recalculate_clean (h : ¬ f.dependencies.any dirty.contains) :
    recalculate dirty w world (f :: fs) = recalculate dirty w world fs := by
  rw [recalculate, if_neg h]

/-- A pass changes values only. -/
structure SameTables (w w' : Workbook σ) : Prop where
  bindings : w'.bindings = w.bindings
  formulas : w'.formulas = w.formulas
  functions : w'.functions = w.functions
  hosts : w'.hosts = w.hosts

theorem SameTables.of_refreshed {w' : Workbook σ} (h : SameTables (w.refreshed world f) w') :
    SameTables w w' := ⟨h.bindings, h.formulas, h.functions, h.hosts⟩

theorem sameTables_recalculate :
    SameTables w (recalculate dirty w world fs).1.workbook := by
  induction fs generalizing dirty w world with
  | nil => exact ⟨rfl, rfl, rfl, rfl⟩
  | cons f fs ih =>
    by_cases h : f.dependencies.any dirty.contains
    · rw [recalculate_dirty h]
      exact ih.of_refreshed
    · rw [recalculate_clean h]
      exact ih

theorem get?_recalculate {n : String} (hn : n ∉ fs.map (·.name)) :
    (recalculate dirty w world fs).1.workbook.values.get? n = w.values.get? n := by
  induction fs generalizing dirty w world with
  | nil => rfl
  | cons f fs ih =>
    rw [List.map_cons, List.mem_cons, not_or] at hn
    by_cases h : f.dependencies.any dirty.contains
    · rw [recalculate_dirty h, ih hn.2]
      exact Fields.get?_insert_ne (Ne.symm hn.1)
    · rw [recalculate_clean h, ih hn.2]

/-- The workbook in which a pass evaluates the formula of a name, if it does. -/
def turn (name : String) (dirty : List String) (w : Workbook σ) (world : σ) :
    List NamedFormula → Option (Workbook σ)
  | [] => none
  | f :: rest =>
    if f.dependencies.any dirty.contains then
      if f.name = name then some w
      else turn name (f.name :: dirty) (w.refreshed world f) (w.settle f.expr world).2 rest
    else turn name dirty w world rest

theorem turn_eq_none {name : String} (h : name ∉ fs.map (·.name)) :
    turn name dirty w world fs = none := by
  induction fs generalizing dirty w world with
  | nil => rfl
  | cons f fs ih =>
    rw [List.map_cons, List.mem_cons, not_or] at h
    simp only [turn, if_neg (Ne.symm h.1), ih h.2, ite_self]

/-- The names of the formulas that come no earlier than that of the given name. -/
def namesFrom (name : String) (fs : List NamedFormula) : List String :=
  (fs.dropWhile (·.name != name)).map (·.name)

theorem namesFrom_self : namesFrom f.name (f :: fs) = f.name :: fs.map (·.name) := by
  simp [namesFrom]

theorem namesFrom_cons {name : String} (h : f.name ≠ name) :
    namesFrom name (f :: fs) = namesFrom name fs := by
  simp [namesFrom, h]

theorem eq_of_name_eq {g : NamedFormula} (hf : f ∈ g :: fs) (hg : g.name ∉ fs.map (·.name))
    (hn : g.name = f.name) : f = g :=
  (List.mem_cons.mp hf).resolve_right fun hm => hg (hn ▸ List.mem_map_of_mem hm)

theorem mem_of_name_ne {g : NamedFormula} (hf : f ∈ g :: fs) (hn : g.name ≠ f.name) : f ∈ fs :=
  (List.mem_cons.mp hf).resolve_left fun he => hn (by rw [he])

/-- A formula that a pass evaluates takes the value that it has at its turn. The names that no
formula from this one on defines have their final values by then. -/
theorem recalculate_of_turn {s : Workbook σ} (hf : f ∈ fs) (hd : (fs.map (·.name)).Nodup)
    (h : turn f.name dirty w world fs = some s) :
    SameTables w s ∧
      (∃ world', (recalculate dirty w world fs).1.workbook.values.get? f.name =
        some (settledValue (s.settle f.expr world').1)) ∧
      ∀ n, n ∉ namesFrom f.name fs →
        s.values.get? n = (recalculate dirty w world fs).1.workbook.values.get? n := by
  induction fs generalizing dirty w world with
  | nil => simp at hf
  | cons g fs ih =>
    rw [List.map_cons, List.nodup_cons] at hd
    by_cases hg : g.dependencies.any dirty.contains
    · rw [recalculate_dirty hg]
      by_cases hn : g.name = f.name
      · obtain rfl := eq_of_name_eq hf hd.1 hn
        rw [turn, if_pos hg, if_pos rfl, Option.some.injEq] at h
        subst h
        refine ⟨⟨rfl, rfl, rfl, rfl⟩, ⟨world, ?_⟩, ?_⟩
        · rw [get?_recalculate hd.1]
          exact Fields.get?_insert_self
        · intro n hn
          rw [namesFrom_self, List.mem_cons, not_or] at hn
          rw [get?_recalculate hn.2]
          exact (Fields.get?_insert_ne (Ne.symm hn.1)).symm
      · have hm := mem_of_name_ne hf hn
        rw [turn, if_pos hg, if_neg hn] at h
        rw [namesFrom_cons hn]
        obtain ⟨ht, hv, hr⟩ := ih hm hd.2 h
        exact ⟨ht.of_refreshed, hv, hr⟩
    · rw [recalculate_clean hg]
      rw [turn, if_neg hg] at h
      by_cases hn : g.name = f.name
      · rw [turn_eq_none (hn ▸ hd.1)] at h
        cases h
      · have hm := mem_of_name_ne hf hn
        rw [namesFrom_cons hn]
        exact ih hm hd.2 h

/-- A formula that a pass leaves out keeps its value, and so does every name that it depends on
and that no formula from this one on defines. -/
theorem recalculate_of_no_turn (hf : f ∈ fs) (hd : (fs.map (·.name)).Nodup)
    (h : turn f.name dirty w world fs = none) :
    (recalculate dirty w world fs).1.workbook.values.get? f.name = w.values.get? f.name ∧
      ∀ n ∈ f.dependencies, n ∉ namesFrom f.name fs → n ∉ dirty ∧
        (recalculate dirty w world fs).1.workbook.values.get? n = w.values.get? n := by
  induction fs generalizing dirty w world with
  | nil => simp at hf
  | cons g fs ih =>
    rw [List.map_cons, List.nodup_cons] at hd
    by_cases hg : g.dependencies.any dirty.contains
    · rw [recalculate_dirty hg]
      rw [turn, if_pos hg] at h
      by_cases hn : g.name = f.name
      · rw [if_pos hn] at h
        cases h
      · have hm := mem_of_name_ne hf hn
        rw [if_neg hn] at h
        obtain ⟨hv, hr⟩ := ih hm hd.2 h
        rw [namesFrom_cons hn]
        refine ⟨hv.trans (Fields.get?_insert_ne hn), fun n hnd hl => ?_⟩
        obtain ⟨hc, hr⟩ := hr n hnd hl
        rw [List.mem_cons, not_or] at hc
        exact ⟨hc.2, hr.trans (Fields.get?_insert_ne (Ne.symm hc.1))⟩
    · rw [recalculate_clean hg]
      rw [turn, if_neg hg] at h
      by_cases hn : g.name = f.name
      · obtain rfl := eq_of_name_eq hf hd.1 hn
        refine ⟨get?_recalculate hd.1, fun n hnd hl => ⟨fun hc => hg ?_, ?_⟩⟩
        · exact List.any_eq_true.mpr ⟨n, hnd, by simpa using hc⟩
        · rw [namesFrom_self, List.mem_cons, not_or] at hl
          exact get?_recalculate hl.2
      · have hm := mem_of_name_ne hf hn
        rw [namesFrom_cons hn]
        exact ih hm hd.2 h

end FormulaShell.Workbook
