import FormulaShell.Proofs.Workbook.Currency

namespace FormulaShell.Workbook

open FormulaShell.Formula

variable {σ : Type} {w : Workbook σ} {world : σ} {f : NamedFormula}

/-- A definition that is accepted gives no name that a formula depends on, the new one included. -/
def keepsOrder (w : Workbook σ) (world : σ) : Request σ → Bool
  | .define name source =>
    match (w.define name source world).1 with
    | .ok c => c.workbook.formulas.all fun f => !f.dependencies.contains name
    | .error _ => true
  | _ => true

def orderly (w : Workbook σ) (world : σ) : List (Request σ) → Bool
  | [] => true
  | r :: rest =>
    w.keepsOrder world r && orderly (w.perform world r).1 (w.perform world r).2 rest

/-- No formula depends on itself or on a formula that is defined later. -/
def InOrder (w : Workbook σ) : Prop :=
  ∀ f ∈ w.formulas, ∀ n ∈ f.dependencies, n ∉ namesFrom f.name w.formulas

theorem InOrder.step {w' : Workbook σ} (h : InOrder w) (hwf : Wellformed w) {r : Request σ}
    (hr : w.keepsOrder world r) (hs : Step w world r w') : InOrder w' := by
  cases hs with
  | update hc =>
    obtain ⟨-, lock, -, rfl⟩ := update_ok hc
    rw [InOrder, sameTables_recalculate.formulas]
    exact h
  | @define name source c hc =>
    rw [keepsOrder, hc] at hr
    intro f hf n hn hlate
    have hne : n ≠ name := by
      rintro rfl
      have hfr := List.all_eq_true.mp hr f hf
      simp [hn] at hfr
    obtain ⟨-, hb, e, v, -, -, rfl⟩ := define_ok hc
    obtain hf | hf := List.mem_append.mp hf
    · rw [namesFrom_append (List.mem_map_of_mem hf)] at hlate
      obtain hl | hl := List.mem_append.mp hlate
      · exact h f hf n hn hl
      · exact hne (List.mem_singleton.mp hl)
    · rw [List.mem_singleton] at hf
      subst hf
      have hnew : name ∉ w.formulas.map (·.name) := hwf.not_mem_names (by simp [hb])
      rw [namesFrom_append_new (f := ⟨name, e, w.dependencies e⟩) hnew] at hlate
      exact hne (List.mem_singleton.mp hlate)
  | functions hw =>
    rw [InOrder, (defineFunctions_formulas hw).1]
    exact h
  | same => exact h

theorem InOrder.run (h : InOrder w) (hwf : Wellformed w) {rs : List (Request σ)}
    (hr : w.orderly world rs) : InOrder (w.run world rs).1 := by
  induction rs generalizing w world with
  | nil => exact h
  | cons r rs ih =>
    rw [orderly, Bool.and_eq_true] at hr
    have hs := step_perform w world r
    exact ih (h.step hwf hr.1 hs) (hwf.step hs) hr.2

theorem orderly_of_append {rs ss : List (Request σ)} (h : w.orderly world (rs ++ ss)) :
    w.orderly world rs := by
  induction rs generalizing w world with
  | nil => rfl
  | cons r rs ih =>
    rw [List.cons_append, orderly, Bool.and_eq_true] at h
    rw [orderly, Bool.and_eq_true]
    exact ⟨h.1, ih h.2⟩

/-- After every step of an orderly run, every formula is current. -/
theorem formulas_current (world : σ) (rs : List (Request σ))
    (h : orderly .empty world rs) : ∀ steps, steps <+: rs →
    ∀ f ∈ (run .empty world steps).1.formulas, (run .empty world steps).1.Current f := by
  rintro steps ⟨rest, rfl⟩ f hf
  have hwf : Wellformed (run .empty world steps).1 := wellformed_empty.run steps
  have ho : InOrder (run .empty world steps).1 :=
    InOrder.run (by simp [InOrder, empty]) wellformed_empty (orderly_of_append h)
  exact (evaluatedIn_lastSeen world steps f hf).current hwf.hostless (ho f hf)

def scaledRun : List (Request Unit) :=
  [.update "k" (.number 2.0), .functions "Scale(n: Number): Number = n * k",
    .define "F" "ForAll([1, 2], Scale(x))", .update "x" (.number 3.0), .define "G" "Sum(F)",
    .update "G" .blank, .evaluate "F" .empty .never, .update "k" (.number 5.0)]

theorem scaledRun_current : orderly .empty () scaledRun ∧
    (run .empty () scaledRun).1.formulas.map (·.name) = ["F", "G"] ∧
    (run .empty () scaledRun).1.valueOf? "F" ==
      some (.table (Table.ofValues [.number 15.0, .number 15.0])) ∧
    (run .empty () scaledRun).1.valueOf? "G" == some (.number 30.0) ∧
    ∀ f ∈ (run .empty () scaledRun).1.formulas, (run .empty () scaledRun).1.Current f :=
  ⟨by decide +kernel, by decide +kernel, by decide +kernel, by decide +kernel,
    formulas_current () scaledRun (by decide +kernel) scaledRun List.prefix_rfl⟩

end FormulaShell.Workbook
