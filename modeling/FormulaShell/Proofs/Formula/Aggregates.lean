import FormulaShell.Proofs.Formula.Quiet
import FormulaShell.Proofs.Value.Rearrangement

namespace FormulaShell

namespace Formula

theorem columnValues_ofValues (vs : List Value) : columnValues (Table.ofValues vs) = vs := by
  induction vs with
  | nil => rfl
  | cons v vs ih => exact congrArg (v :: ·) ih

theorem tableOfResults_of_not_records {vs : List Value}
    (h : vs = [] ∨ ¬ ∀ v ∈ vs, ∃ r, v = .record r) : tableOfResults vs = Table.ofValues vs := by
  rw [tableOfResults, if_neg]
  rw [Bool.and_eq_true, Bool.not_eq_true', List.isEmpty_eq_false_iff, beq_iff_eq,
    List.filterMap_length_eq_length]
  rintro ⟨hne, hrecords⟩
  refine h.elim hne fun h => h fun v hv => ?_
  have hv := hrecords v hv
  split at hv
  next r _ => exact ⟨r, rfl⟩
  next => cases hv

/-- What a sum or an extreme makes of the numbers that it has collected. -/
def aggregate (b : Builtin) (numbers : Except String (List Numeric)) : Value :=
  match b with
  | .max => valueOf (numbers.map (extremeValue .gt))
  | .min => valueOf (numbers.map (extremeValue .lt))
  | _ => valueOf (numbers.bind total)

variable {σ : Type} {env : Environment σ} {b : Builtin}

theorem admits_aggregate (hb : b ∈ [Builtin.sum, .max, .min]) {n : Nat} (hn : 1 ≤ n) :
    b.arity.admits n := by
  simp only [List.mem_cons, List.not_mem_nil, or_false] at hb
  obtain rfl | rfl | rfl := hb <;> simp [Builtin.arity, Arity.admits, hn]

theorem callBuiltin_aggregate (hb : b ∈ [Builtin.sum, .max, .min]) (enter : Enter σ)
    (frames : Frames) (t : Expr) (more : List Expr) :
    callBuiltin env enter frames b (t :: more) = (do
      let first ← eval env enter frames t
      return aggregate b (← collect env enter frames b.name first more)) := by
  simp only [List.mem_cons, List.not_mem_nil, or_false] at hb
  obtain rfl | rfl | rfl := hb <;> rfl

theorem collect_of_not_table {enter : Enter σ} {frames : Frames} {first : Value}
    (h : first.kind ≠ .table) (name : String) (more : List Expr) :
    collect env enter frames name first more = (do
      let vs ← evalAll env enter frames more
      return numerics (first :: vs)) := by
  obtain _ | ⟨e, _ | ⟨f, more⟩⟩ := more <;> cases first <;>
    first | exact absurd rfl h | simp [collect, evalAll]

section

variable (hquiet : env.Quiet) {enter : Enter σ} {frames : Frames} {t e : Expr} {rows : Table}
  {value : Record → Value}
include hquiet

theorem yields_forAll (hforAll : env.functions.get? "ForAll" = none)
    (ht : Yields (eval env enter frames t) (.table rows))
    (he : ∀ row, Yields (eval env enter (rowFrame row :: frames) e) (value row)) (offset : Nat) :
    Yields (eval env enter frames (.call "ForAll" [t, e] offset))
      (.table (tableOfResults (rows.map value))) := by
  refine hquiet.yields_call (b := .forAll) hforAll rfl ?_ offset
  exact ht.bind ((yields_mapM he rows).bind (yields_pure _))

variable (hb : b ∈ [Builtin.sum, .max, .min]) (hname : env.functions.get? b.name = none)
include hb hname

theorem yields_aggregate_rows (ht : Yields (eval env enter frames t) (.table rows))
    (he : ∀ row, Yields (eval env enter (rowFrame row :: frames) e) (value row)) (offset : Nat) :
    Yields (eval env enter frames (.call b.name [t, e] offset))
      (aggregate b (numerics (rows.map value))) := by
  refine hquiet.yields_call hname (admits_aggregate hb (by simp)) ?_ offset
  rw [callBuiltin_aggregate hb]
  refine ht.bind (Yields.bind ?_ (yields_pure _))
  exact (yields_mapM he rows).bind (yields_pure _)

theorem yields_aggregate_column {vs : List Value}
    (ht : Yields (eval env enter frames t) (.table (Table.ofValues vs))) (offset : Nat) :
    Yields (eval env enter frames (.call b.name [t] offset)) (aggregate b (numerics vs)) := by
  refine hquiet.yields_call hname (admits_aggregate hb (by simp)) ?_ offset
  rw [callBuiltin_aggregate hb]
  refine ht.bind (Yields.bind ?_ (yields_pure _))
  rw [collect, if_pos (Table.isColumn_ofValues vs), columnValues_ofValues]
  exact yields_pure _

end

/-- Sums and extremes of a formula over the rows of a table are those of the column that `ForAll`
makes of it, failures included. With records for all rows, `ForAll` makes no column. -/
theorem aggregate_forAll (hquiet : env.Quiet) (hb : b ∈ [Builtin.sum, .max, .min])
    (hname : env.functions.get? b.name = none) (hforAll : env.functions.get? "ForAll" = none)
    {depth : Nat} {frames : Frames} {t e : Expr} {rows : Table}
    (ht : Yields (evalAt env depth frames t) (.table rows))
    (hrows : rows = [] ∨ ¬ ∀ row ∈ rows,
      ∃ r, Yields (evalAt env depth (rowFrame row :: frames) e) (.record r)) (o o' o'' : Nat) :
    Agree (evalAt env depth frames (.call b.name [t, e] o))
      (evalAt env depth frames (.call b.name [.call "ForAll" [t, e] o'] o'')) := by
  simp only [evalAt_eq] at ht hrows ⊢
  choose value hvalue using fun row => hquiet.exists_yields depth (rowFrame row :: frames) e
  -- The column that `ForAll` makes is read back as the values that the rows have given.
  have hcolumn : tableOfResults (rows.map value) = Table.ofValues (rows.map value) := by
    refine tableOfResults_of_not_records (hrows.imp (by rintro rfl; rfl) fun h hall => ?_)
    refine h fun row hrow => ?_
    obtain ⟨r, hr⟩ := hall _ (List.mem_map_of_mem hrow)
    exact ⟨r, hr ▸ hvalue row⟩
  have hresults := yields_forAll hquiet hforAll ht hvalue o'
  rw [hcolumn] at hresults
  exact ⟨_, yields_aggregate_rows hquiet hb hname ht hvalue o,
    yields_aggregate_column hquiet hb hname hresults o''⟩

def hours : Table :=
  [⟨[("spent", .text "7")]⟩, ⟨[("spent", .blank)]⟩, ⟨[("planned", .text "seven")]⟩]

def timesheet : Environment Unit :=
  ⟨⟨[("hours", .table hours)]⟩, .empty, .empty, .empty, .never, .standard⟩

/-- In a row with a field of the same name, which the third of the hours is given. -/
theorem aggregate_forAll_hours :
    let frames := [rowFrame ⟨[("spent", .text "eight")]⟩]
    let t := Expr.name "hours" 4
    let e := Expr.name "spent" 11
    (¬ ∀ row ∈ hours,
      ∃ r, Yields (evalAt timesheet maxCallDepth (rowFrame row :: frames) e) (.record r)) ∧
    Agree (evalAt timesheet maxCallDepth frames (.call "Sum" [t, e] 0))
      (evalAt timesheet maxCallDepth frames (.call "Sum" [.call "ForAll" [t, e] 4] 0)) := by
  intro frames t e
  have hquiet : timesheet.Quiet := ⟨rfl, rfl⟩
  have ht : Yields (evalAt timesheet maxCallDepth frames t) (.table hours) :=
    hquiet.yields_of_run (p := ⟨0, ()⟩) rfl
  have hrows : ¬ ∀ row ∈ hours,
      ∃ r, Yields (evalAt timesheet maxCallDepth (rowFrame row :: frames) e) (.record r) := by
    intro h
    obtain ⟨r, hr⟩ := h _ (List.mem_cons_self ..)
    cases hr ⟨0, ()⟩
  exact ⟨hrows, aggregate_forAll hquiet (b := .sum) (by decide) rfl rfl ht (.inr hrows) 0 4 0⟩

end Formula

end FormulaShell
