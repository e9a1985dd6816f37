import FormulaShell.Proofs.Formula.Quiet
import FormulaShell.Proofs.Value.Union
import Mathlib.Data.List.Forall2

namespace FormulaShell

/-- The rows that a record, a table or a blank brings into a table. -/
def Value.rowsBrought : Value → Table
  | .record r => [r]
  | .table t => t
  | _ => []

theorem Table.forall₂_union (rows : Table) :
    List.Forall₂ (fun row out => out.names = (rows.flatMap Fields.names).eraseDups ∧
      (∀ n v, row.get? n = some v → out.get? n = some v) ∧
      ∀ n ∈ out.names, row.get? n = none → out.get? n = some .blank) rows (union rows) := by
  rw [union_eq, List.forall₂_map_right_iff, List.forall₂_same]
  intro row hrow
  have hnames := names_pad (columns rows) row
  refine ⟨hnames, fun n v hv => ?_, fun n hn hnone => ?_⟩
  · have hn : n ∈ row.names := List.mem_map_of_mem (Fields.mem_of_get? hv)
    rw [get?_pad, if_pos (mem_columns.mpr ⟨row, hrow, hn⟩), hv, Option.getD_some]
  · rw [hnames] at hn
    rw [get?_pad, if_pos hn, hnone, Option.getD_none]

namespace Formula

variable {σ : Type} {env : Environment σ}

theorem gather_eq {vs : List Value} (h : ∀ v ∈ vs, v.kind ∈ [Kind.record, .table, .blank]) :
    gather vs = .ok (vs.flatMap Value.rowsBrought) := by
  induction vs with
  | nil => rfl
  | cons v vs ih =>
    obtain ⟨hv, hvs⟩ := List.forall_mem_cons.mp h
    cases v with
    | record | table | blank => simp [gather, ih hvs, Except.map, Value.rowsBrought]
    | _ => simp [Value.kind] at hv

theorem applyStrict_table {vs : List Value}
    (h : ∀ v ∈ vs, v.kind ∈ [Kind.record, .table, .blank]) :
    applyStrict env .table vs = .table (Table.union (vs.flatMap Value.rowsBrought)) := by
  have hnone : firstError? vs = none := by
    rw [firstError?, List.find?_eq_none]
    intro v hv herror
    have hkind := h v hv
    cases v with
    | error m => simp [Value.kind] at hkind
    | _ => cases herror
  have hbuiltin : Builtin.table ≠ .isError := by decide
  rw [applyStrict, if_neg hbuiltin, hnone]
  change valueOf (makeTable vs) = _
  rw [makeTable, gather_eq h]
  rfl

/-- Arguments that come to these values, unless a poll interrupts them. -/
abbrev ComesTo (env : Environment σ) (enter : Enter σ) (frames : Frames) (args : List Expr)
    (vs : List Value) : Prop :=
  List.Forall₂ (fun e v => Halts env (· = v) (eval env enter frames e)) args vs

section

variable {enter : Enter σ} {frames : Frames} {args : List Expr} {vs : List Value}

theorem ComesTo.evalAll (h : ComesTo env enter frames args vs) :
    Halts env (· = vs) (evalAll env enter frames args) := by
  induction h with
  | nil => exact halts_pure rfl
  | cons he _ ih =>
    refine he.bind fun v hv => ih.bind fun vs hvs => halts_pure ?_
    rw [hv, hvs]

theorem ComesTo.table (hmeans : env.Means .table) (h : ComesTo env enter frames args vs)
    (hkinds : ∀ v ∈ vs, v.kind ∈ [Kind.record, .table, .blank]) (offset : Nat) :
    Halts env (· = .table (Table.union (vs.flatMap Value.rowsBrought)))
      (eval env enter frames (.call "Table" args offset)) := by
  have hcall : eval env enter frames (.call "Table" args offset) = (do
      visit env
      callBuiltin env enter frames .table args) := hmeans.eval_call enter frames rfl offset
  rw [hcall]
  refine halts_visit.bind fun _ _ => h.evalAll.bind fun ws hws => halts_pure ?_
  rw [hws, applyStrict_table hkinds]

end

/-- Arguments that are records, tables or blank make the same table at once and in two parts. It has
a row for each row of theirs, with the names of them all in the order in which they are first seen;
fields keep their values, and those that are missing are blank. -/
theorem table_of_parts (hmeans : env.Means .table) {depth : Nat} {frames : Frames}
    {xs ys : List Expr} {vs ws : List Value}
    (hx : List.Forall₂ (fun e v => Halts env (· = v) (evalAt env depth frames e)) xs vs)
    (hy : List.Forall₂ (fun e v => Halts env (· = v) (evalAt env depth frames e)) ys ws)
    (hkinds : ∀ v ∈ vs ++ ws, v.kind ∈ [Kind.record, .table, .blank]) (o o₁ o₂ o₃ : Nat) :
    let given := (vs ++ ws).flatMap Value.rowsBrought
    let once := evalAt env depth frames (.call "Table" (xs ++ ys) o)
    let parts :=
      evalAt env depth frames (.call "Table" [.call "Table" xs o₁, .call "Table" ys o₂] o₃)
    ∃ t : Table,
      (Halts env (· = .table t) once ∧ Halts env (· = .table t) parts) ∧
      (env.poll = .never → Yields once (.table t) ∧ Yields parts (.table t)) ∧
      List.Forall₂ (fun row out => out.names = (given.flatMap Fields.names).eraseDups ∧
        (∀ n v, row.get? n = some v → out.get? n = some v) ∧
        ∀ n ∈ out.names, row.get? n = none → out.get? n = some .blank) given t := by
  intro given once parts
  simp only [evalAt_eq] at hx hy
  have honce : Halts env (· = .table (Table.union given)) once := by
    simp only [once, evalAt_eq]
    exact ComesTo.table hmeans (List.rel_append hx hy) hkinds o
  have hparts : Halts env (· = .table (Table.union given)) parts := by
    have hvs := ComesTo.table hmeans hx (fun v hv => hkinds v (List.mem_append_left ws hv)) o₁
    have hws := ComesTo.table hmeans hy (fun v hv => hkinds v (List.mem_append_right vs hv)) o₂
    have htables := ComesTo.table hmeans (.cons hvs (.cons hws .nil)) (by simp [Value.kind]) o₃
    simpa [parts, given, evalAt_eq, Value.rowsBrought, Table.union_append_union] using htables
  refine ⟨Table.union given, ⟨honce, hparts⟩, fun hpoll => ?_, Table.forall₂_union given⟩
  exact ⟨honce.yields hpoll, hparts.yields hpoll⟩

def guests : Table := [⟨[("Name", .text "Ann")]⟩, ⟨[("Name", .text "Bo")]⟩]

def speaker : Record := ⟨[("Topic", .text "Tables"), ("Name", .text "Cy")]⟩

def visitors : Environment Unit where
  globals := ⟨[("guests", .table guests), ("absent", .blank), ("speaker", .record speaker)]⟩
  bindings := .empty
  functions := .empty
  hosts := .empty
  poll := .never
  faults := .standard

theorem table_of_parts_visitors :
    let xs := [Expr.name "guests" 0, .name "absent" 0]
    let ys := [Expr.name "speaker" 0]
    visitors.Means .table ∧ ∃ t : Table,
      Yields (evalAt visitors maxCallDepth [] (.call "Table" (xs ++ ys) 0)) (.table t) ∧
      Yields (evalAt visitors maxCallDepth []
        (.call "Table" [.call "Table" xs 0, .call "Table" ys 0] 0)) (.table t) ∧
      List.Forall₂ (fun row out => out.names = ["Name", "Topic"] ∧
        ∀ n v, row.get? n = some v → out.get? n = some v) (guests ++ [speaker]) t := by
  intro xs ys
  have hmeans : visitors.Means .table := ⟨rfl, rfl⟩
  have hname (n : String) : Halts visitors (· = lookup visitors [] n)
      (evalAt visitors maxCallDepth [] (.name n 0)) := halts_visit.bind fun _ _ => halts_pure rfl
  have hx : List.Forall₂ (fun e v => Halts visitors (· = v) (evalAt visitors maxCallDepth [] e))
      xs [.table guests, .blank] := .cons (hname "guests") (.cons (hname "absent") .nil)
  have hy : List.Forall₂ (fun e v => Halts visitors (· = v) (evalAt visitors maxCallDepth [] e))
      ys [.record speaker] := .cons (hname "speaker") .nil
  obtain ⟨t, -, hyields, hrows⟩ := table_of_parts hmeans hx hy (by simp [Value.kind]) 0 0 0 0
  obtain ⟨honce, hparts⟩ := hyields rfl
  exact ⟨hmeans, t, honce, hparts, hrows.imp fun row out h => ⟨h.1, h.2.1⟩⟩

end Formula

end FormulaShell
