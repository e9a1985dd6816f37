import FormulaShell.Proofs.Formula.Written
import FormulaShell.Proofs.Value.Rearrangement
import FormulaShell.Proofs.Workbook.Request

namespace FormulaShell

open FormulaShell.Formula

/-- A value that formulas can write, with at most `d` records and tables inside one another. -/
inductive Writable : Nat → Value → Prop where
  | blank {d} : Writable d .blank
  | boolean {d} (b : Bool) : Writable d (.boolean b)
  | number {d} {x : Float} : Number.isFinite x = true → Writable d (.number x)
  | text {d} (s : String) : Writable d (.text s)
  | record {d} {fs : List (String × Value)} : (fs.map Prod.fst).Nodup →
      (∀ f ∈ fs, FieldName f.1) → (∀ f ∈ fs, Writable d f.2) → Writable (d + 1) (.record ⟨fs⟩)
  | table {d} {vs : List Value} : (∀ v ∈ vs, Writable d v) →
      Writable (d + 1) (.table (Table.ofValues vs))

namespace Value

variable {aligned : Bool}

theorem renderEntries_eq (fs : List (String × Value)) :
    (renderEntries aligned fs).map String.toList =
      fs.map (fieldText fun v => (v.render aligned).toList) := by
  induction fs with
  | nil => rw [renderEntries, List.map_nil, List.map_nil]
  | cons f fs ih =>
    obtain ⟨n, v⟩ := f
    rw [renderEntries, List.map_cons, List.map_cons, ih, fieldText, String.toList_append,
      String.toList_append, List.append_assoc]
    rfl

theorem renderItems_ofValues (vs : List Value) :
    renderItems aligned (Table.ofValues vs) = vs.map (render aligned) := by
  induction vs with
  | nil => simp [Table.ofValues, renderItems]
  | cons v vs ih =>
    rw [List.map_cons, ← ih]
    change renderItems aligned (⟨[(Table.valueColumn, v)]⟩ :: Table.ofValues vs) = _
    rw [renderItems]

theorem toList_render_record (fs : List (String × Value)) :
    ((record ⟨fs⟩).render aligned).toList =
      '{' :: (listed (fs.map (fieldText fun v => (v.render aligned).toList)) ++ ['}']) := by
  rw [render, renderRecord, toList_inBraces, renderEntries_eq]
  rfl

theorem toList_render_table (vs : List Value) :
    ((table (Table.ofValues vs)).render aligned).toList =
      '[' :: (listed (vs.map fun v => (v.render aligned).toList) ++ [']']) := by
  rw [render, if_pos (Table.isColumn_ofValues vs), toList_inBrackets, renderItems_ofValues,
    List.map_map]
  rfl

end Value

/-- Two operands more than containers are enough: one for a number and one for its sign. -/
theorem Writable.written {d : Nat} {v : Value} (h : Writable d v) (aligned : Bool) :
    Written (d + 2) v (v.render aligned).toList := by
  induction h with
  | blank =>
    rw [Value.render]
    exact written_blank
  | boolean b =>
    rw [Value.render]
    exact written_boolean b
  | number hx =>
    rw [Value.render]
    exact written_number hx
  | text s =>
    rw [Value.render]
    exact written_text s
  | record hn hnames _ ih =>
    rw [Value.toList_render_record]
    exact written_record (fun f hf => ⟨hnames f hf, ih f hf⟩) hn
  | table _ ih =>
    rw [Value.toList_render_table]
    exact written_table ih

namespace Workbook

variable {σ : Type} {v : Value}

theorem readFormula_of_written {source : String} (h : Written maxNesting v source.toList) :
    ∃ e, readFormula source = .ok e ∧ Denotes e v := by
  obtain ⟨t, ts, q, e, hlex, -, hgives, hdenotes⟩ := h .start [] stops_nil
  rw [List.append_nil] at hlex
  have hparse := formula_of_gives
    ((hgives (Tokens.eof ⟨t :: ts, q⟩) [] ends_nil).expression ends_nil)
  rw [List.append_nil] at hparse
  refine ⟨e, ?_, hdenotes⟩
  rw [readFormula, tokens, lex_of_lexes hlex]
  change (formula (Tokens.eof ⟨t :: ts, q⟩) (t :: ts)).mapError ReadError.parse = .ok e
  rw [hparse]
  rfl

theorem prepare_of_denotes {source : String} {e : Expr} (hread : readFormula source = .ok e)
    (h : Denotes e v) : (empty : Workbook σ).prepare source .empty = .ok e :=
  prepare_of_reads hread (h.checks _ rfl true)

theorem plain_empty : Plain ((empty : Workbook σ).environment .empty .never) := ⟨rfl, rfl, rfl⟩

theorem evaluate_of_denotes {e : Expr} (h : Denotes e v) {env : Environment σ} (henv : Plain env)
    (world : σ) : ∃ w, (Formula.evaluate env e world).1 = .ok w ∧ (w == v) = true := by
  obtain ⟨w, hw, hwv⟩ := h.yields env (some fun scope body => evalAt env 63 [scope] body) [] henv
  exact ⟨w, (yields_pause henv.poll).bind hw ⟨0, world⟩, hwv⟩

/-- Evaluating the text of a value gives the value back. -/
theorem evaluate_render (h : Writable 98 v) (aligned : Bool) (world : σ) :
    ∃ w, (empty.evaluate (v.render aligned) .empty .never world).1 = .ok w ∧ (w == v) = true := by
  obtain ⟨e, hread, hdenotes⟩ := readFormula_of_written (h.written aligned)
  obtain ⟨w, hw, hwv⟩ := evaluate_of_denotes hdenotes plain_empty world
  refine ⟨w, ?_, hwv⟩
  rw [evaluate, prepare_of_denotes hread hdenotes]
  change (Formula.evaluate _ e world).1.mapError WorkbookError.interrupted = .ok w
  rw [hw]
  rfl

def invoice : Value :=
  .record ⟨[("total", .number (-1.5)), ("paid", .boolean false),
    ("notes", .table (Table.ofValues [.text "say \"hi\"", .blank]))]⟩

theorem writable_invoice : Writable 98 invoice := by
  refine .record (by decide) ?_ ?_
  · simp only [List.forall_mem_cons]
    exact ⟨⟨by decide +kernel, by decide⟩, ⟨by decide +kernel, by decide⟩,
      ⟨by decide +kernel, by decide⟩, by simp⟩
  · simp only [List.forall_mem_cons]
    refine ⟨.number (by decide +kernel), .boolean false, .table ?_, by simp⟩
    simp only [List.forall_mem_cons]
    exact ⟨.text _, .blank, by simp⟩

theorem evaluate_render_invoice :
    Writable 98 invoice ∧
      ∃ w, (empty.evaluate (invoice.render true) .empty .never ()).1 = .ok w ∧
        (w == invoice) = true :=
  ⟨writable_invoice, evaluate_render writable_invoice true ()⟩

end Workbook

end FormulaShell
