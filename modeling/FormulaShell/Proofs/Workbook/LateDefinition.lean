import FormulaShell.Proofs.Workbook.Currency

namespace FormulaShell.Workbook

open FormulaShell.Formula

variable {σ : Type} {w : Workbook σ} {world : σ} {f : NamedFormula}

theorem seenAfterRun_append (w : Workbook σ) (world : σ) (seen : String → Workbook σ)
    (rs ss : List (Request σ)) :
    seenAfterRun w world seen (rs ++ ss) =
      seenAfterRun (w.run world rs).1 (w.run world rs).2 (seenAfterRun w world seen rs) ss := by
  induction rs generalizing w world seen with
  | nil => rfl
  | cons r rs ih => exact ih _ _ _

theorem seenAfter_define {seen : String → Workbook σ} {name source n : String} (hn : n ≠ name) :
    w.seenAfter world seen (.define name source) n = seen n := by
  rw [seenAfter]
  obtain ⟨e | c, world'⟩ := w.define name source world
  · rfl
  · exact if_neg hn

theorem mem_namesFrom_append {fs gs : List NamedFormula} {name n : String}
    (h : name ∈ fs.map (·.name)) (hn : n ∈ gs.map (·.name)) : n ∈ namesFrom name (fs ++ gs) := by
  rw [namesFrom_append h]
  exact List.mem_append_right _ hn

/-- After the definition of a name that a formula depends on already, and updates, the formula is
current exactly if it has the same value in the workbook in which it was evaluated last. The
definition is not such an evaluation, and that workbook and the present one may differ in names
that are defined no earlier than the formula, the new name among them. -/
theorem current_after_late_definition_iff (world : σ) (before : List (Request σ))
    (hf : f ∈ (run .empty world before).1.formulas) {n : String} (hn : n ∈ f.dependencies)
    (hb : (run .empty world before).1.bindings.get? n = none) {source : String} {c : Changed σ}
    (hc : ((run .empty world before).1.define n source (run .empty world before).2).1 = .ok c)
    (updates : List (String × Value)) :
    let defined : List (Request σ) := before ++ [.define n source]
    let rs : List (Request σ) := defined ++ updates.map fun p => .update p.1 p.2
    let w := (run .empty world rs).1
    let s := lastSeen world rs f.name
    (w.Current f ↔ ∀ world, (Formula.evaluate (w.environment .empty .never) f.expr world).1 =
        (Formula.evaluate (s.environment .empty .never) f.expr world).1) ∧
      lastSeen world defined f.name = lastSeen world before f.name ∧
      n ∈ f.dependencies.filter (namesFrom f.name w.formulas).contains ∧
      ∀ m ∈ f.dependencies, m ∉ namesFrom f.name w.formulas → s.valueOf? m = w.valueOf? m := by
  intro defined rs w s
  have hwf : Wellformed (run .empty world before).1 := wellformed_empty.run before
  have hne : n ≠ f.name := hwf.name_ne hf (by simp [hb])
  have hdefined : (run .empty world defined).1 = c.workbook := by
    rw [run_append]
    exact perform_define hc
  have hgrow : c.workbook.formulas <+: w.formulas := by
    rw [← hdefined]
    exact formulas_prefix_run_append _ _ _ _
  have hfw : f ∈ w.formulas := by
    refine hgrow.subset ?_
    rw [← hdefined]
    exact (formulas_prefix_run_append _ _ _ _).subset hf
  have hev : EvaluatedIn s w f := evaluatedIn_lastSeen world rs f hfw
  refine ⟨hev.current_iff, ?_, ?_, hev.values⟩
  · change seenAfterRun _ _ _ (before ++ [_]) _ = _
    rw [seenAfterRun_append]
    exact seenAfter_define hne.symm
  · obtain ⟨later, hlater⟩ := hgrow
    obtain ⟨-, -, e, v, -, -, rfl⟩ := define_ok hc
    refine List.mem_filter.mpr ⟨hn, ?_⟩
    rw [List.contains_iff_mem, ← hlater, List.append_assoc]
    exact mem_namesFrom_append (List.mem_map_of_mem hf) (by simp)

def forwardRun : List (Request Unit) :=
  [.update "x" (.number 1.0), .define "F" "ForAll([x], n)"]

theorem formulas_forwardRun_ne_nil : (run .empty () forwardRun).1.formulas ≠ [] := by
  rw [ne_eq, ← List.isEmpty_iff]
  decide +kernel

def forwardFormula : NamedFormula :=
  (run .empty () forwardRun).1.formulas.head formulas_forwardRun_ne_nil

def isColumnOf (x : Float) : Except Interrupt Value → Bool
  | .ok v => v == .table (Table.ofValues [.number x])
  | .error _ => false

/-- The formula is evaluated again when `x` changes, but before `n` is. -/
theorem forwardFormula_not_current : forwardFormula ∈ (run .empty () forwardRun).1.formulas ∧
    "n" ∈ forwardFormula.dependencies ∧
    (run .empty () forwardRun).1.bindings.get? "n" = none ∧
    ¬ (run .empty () (forwardRun ++ [.define "n" "x * 2"] ++
      [("x", .number 7.0)].map fun p => .update p.1 p.2)).1.Current forwardFormula := by
  have hf : forwardFormula ∈ (run .empty () forwardRun).1.formulas := List.head_mem _
  have hn : "n" ∈ forwardFormula.dependencies := by decide +kernel
  have hb : (run .empty () forwardRun).1.bindings.get? "n" = none := by decide +kernel
  refine ⟨hf, hn, hb, fun h => ?_⟩
  obtain ⟨c, hc⟩ := exists_ok_of_isOk
    (x := ((run .empty () forwardRun).1.define "n" "x * 2" (run .empty () forwardRun).2).1)
    (by decide +kernel)
  obtain ⟨hiff, -⟩ := current_after_late_definition_iff () forwardRun hf hn hb hc
    [("x", .number 7.0)]
  have hsame := congrArg (isColumnOf 14.0) (hiff.mp h ())
  revert hsame
  decide +kernel

end FormulaShell.Workbook
