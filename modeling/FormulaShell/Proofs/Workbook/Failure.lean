import FormulaShell.Proofs.Workbook.InPlace

namespace FormulaShell

open FormulaShell.Formula FormulaShell.Script

def Outcome.isFailure : Outcome → Bool
  | .shown _ | .updated _ _ => false
  | .refused _ | .failed _ => true

namespace Workbook

variable {ε σ : Type}

/-- Only the host's functions may have left something behind, in the world. -/
structure Desk.Unchanged (d d' : Desk σ) : Prop where
  workbook : d'.workbook = d.workbook
  reported : d'.reported = d.reported

theorem Desk.unchanged_after {d : Desk σ} {r : Except ε (Changed σ) × σ}
    (h : ¬ (d.after r).1.isOk) : d.Unchanged (d.after r).2 := by
  obtain ⟨_ | c, world⟩ := r
  · exact ⟨rfl, rfl⟩
  · exact absurd rfl h

theorem Executes.unchanged {w : Workbook σ} {x : Executed σ} (h : Executes w x)
    (hx : x.outcome.any Outcome.isFailure) : x.workbook = w ∧ x.events = [] := by
  cases h with
  | same => exact ⟨rfl, rfl⟩
  | _ => cases hx

/-- Whatever was written before a failure is what was there already: values, bindings, formulas and
functions are the same, those of a refused batch included. With new workbooks, a statement that
fails gives the old one and no recalculations. -/
theorem unchanged_of_failure (d : Desk σ) :
    (∀ r, ¬ ((Work.perform r).run.run d).1.isOk → d.Unchanged ((Work.perform r).run.run d).2) ∧
      (∀ s poll, ((Work.execute s poll).run d).1.any Outcome.isFailure →
        d.Unchanged ((Work.execute s poll).run d).2) ∧
      ∀ s poll, (d.workbook.execute s poll d.world).1.outcome.any Outcome.isFailure →
        (d.workbook.execute s poll d.world).1.workbook = d.workbook ∧
          (d.workbook.execute s poll d.world).1.events = [] := by
  refine ⟨fun r h => ?_, fun s poll h => ?_, fun s poll h => ?_⟩
  · rw [run_perform] at h ⊢
    exact Desk.unchanged_after h
  · rw [run_execute] at h ⊢
    obtain ⟨hw, he⟩ := (executes_execute _ _ _ _).unchanged h
    refine ⟨hw, ?_⟩
    change d.reported ++ (d.workbook.execute s poll d.world).1.events = d.reported
    rw [he, List.append_nil]
  · exact (executes_execute _ _ _ _).unchanged h

def ratesDesk : Desk Unit :=
  (Desk.start ()).operateAll [.request (.update "rate" (.number 2.0)),
    .request (.functions "Scale(n: Number): Number = n * rate"),
    .request (.define "F" "Scale(10)"), .request (.update "rate" (.number 3.0))]

/-- A batch with one definition that is right, an assignment of the wrong kind, and an evaluation
that is stopped. -/
theorem ratesDesk_unchanged :
    ratesDesk.reported.length = 2 ∧
      ¬ ((Work.perform (.functions "Ok1(): Number = 1; Bad(x: Strin): Number = y")).run.run
        ratesDesk).1.isOk ∧
      ratesDesk.Unchanged ((Work.perform
        (.functions "Ok1(): Number = 1; Bad(x: Strin): Number = y")).run.run ratesDesk).2 ∧
      ratesDesk.Unchanged ((Work.perform
        (.evaluate "F" .empty (.always (some .cancelled)))).run.run ratesDesk).2 ∧
      ratesDesk.Unchanged ((Work.execute (.assignment "rate" "\"three\"") .never).run ratesDesk).2 ∧
      (ratesDesk.workbook.execute (.assignment "rate" "1 / 0") .never ()).1.events = [] :=
  ⟨by decide +kernel, by decide +kernel,
    (unchanged_of_failure ratesDesk).1 _ (by decide +kernel),
    (unchanged_of_failure ratesDesk).1 _ (by decide +kernel),
    (unchanged_of_failure ratesDesk).2.1 _ _ (by decide +kernel),
    ((unchanged_of_failure ratesDesk).2.2 _ _ (by decide +kernel)).2⟩

end Workbook

end FormulaShell
