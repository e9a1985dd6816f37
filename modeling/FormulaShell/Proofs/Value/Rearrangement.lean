import FormulaShell.Proofs.Fields
import FormulaShell.Proofs.Formula.Scalars
import FormulaShell.Value.Render
import Mathlib.Data.List.Nodup

namespace FormulaShell

theorem Table.isColumn_iff {t : Table} : Table.isColumn t ↔ ∃ vs, t = Table.ofValues vs := by
  rw [Table.isColumn, List.all_eq_true]
  constructor
  · intro h
    induction t with
    | nil => exact ⟨[], rfl⟩
    | cons r t ih =>
      obtain ⟨vs, rfl⟩ := ih fun s hs => h s (List.mem_cons_of_mem r hs)
      obtain ⟨es⟩ := r
      obtain ⟨⟨_, v⟩, rfl, rfl⟩ := List.map_eq_singleton_iff.mp (eq_of_beq (h ⟨es⟩ (by simp)))
      exact ⟨v :: vs, rfl⟩
  · rintro ⟨vs, rfl⟩ row hrow
    obtain ⟨v, -, rfl⟩ := List.mem_map.mp hrow
    rfl

theorem Table.isColumn_ofValues (vs : List Value) : isColumn (ofValues vs) :=
  isColumn_iff.mpr ⟨vs, rfl⟩

namespace Value

/-- The second value is the first with the fields of some records in another order, at any depth. -/
inductive Rearranged : Value → Value → Prop where
  | refl (v : Value) : Rearranged v v
  | trans {u v w : Value} : Rearranged u v → Rearranged v w → Rearranged u w
  | order {es fs : List (String × Value)} : es.Perm fs → Rearranged (.record ⟨es⟩) (.record ⟨fs⟩)
  | entry (before after : List (String × Value)) (n : String) {v w : Value} :
      Rearranged v w →
      Rearranged (.record ⟨before ++ (n, v) :: after⟩) (.record ⟨before ++ (n, w) :: after⟩)
  | row (before after : Table) {r s : Record} :
      Rearranged (.record r) (.record s) →
      Rearranged (.table (before ++ r :: after)) (.table (before ++ s :: after))

/-- No record in the value, or in anything inside it, has two fields of one name. -/
inductive Distinct : Value → Prop where
  | scalar {v : Value} : v.isScalar → Distinct v
  | record {r : Record} : r.names.Nodup → (∀ p ∈ r.entries, Distinct p.2) → Distinct (.record r)
  | table {t : Table} : (∀ r ∈ t, Distinct (.record r)) → Distinct (.table t)

namespace Distinct

theorem names {r : Record} (h : Distinct (.record r)) : r.names.Nodup := by
  cases h with
  | scalar h => cases h
  | record h _ => exact h

theorem entries {r : Record} (h : Distinct (.record r)) : ∀ p ∈ r.entries, Distinct p.2 := by
  cases h with
  | scalar h => cases h
  | record _ h => exact h

theorem rows {t : Table} (h : Distinct (.table t)) : ∀ r ∈ t, Distinct (.record r) := by
  cases h with
  | scalar h => cases h
  | table h => exact h

theorem insert {r : Record} {name : String} {v : Value} (hr : Distinct (.record r))
    (hv : Distinct v) : Distinct (.record (r.insert name v)) := by
  refine .record (Fields.nodup_names_insert hr.names) fun p hp => ?_
  obtain rfl | hp := Fields.mem_put hp
  · exact hv
  · exact hr.entries p hp

theorem ofValues {vs : List Value} (h : ∀ v ∈ vs, Distinct v) :
    Distinct (.table (Table.ofValues vs)) := by
  refine .table fun r hr => ?_
  obtain ⟨v, hv, rfl⟩ := List.mem_map.mp hr
  refine .record (List.nodup_singleton _) fun p hp => ?_
  obtain rfl := List.mem_singleton.mp hp
  exact h v hv

end Distinct

theorem Rearranged.of_record {r : Record} {w : Value} (h : Rearranged (.record r) w) :
    ∃ s : Record, w = .record s ∧ r.names.Perm s.names := by
  generalize hv : Value.record r = v at h
  induction h generalizing r with
  | refl v => exact ⟨r, hv.symm, .refl _⟩
  | trans _ _ ih₁ ih₂ =>
    obtain ⟨s, hs, hrs⟩ := ih₁ hv
    obtain ⟨q, hq, hsq⟩ := ih₂ hs.symm
    exact ⟨q, hq, hrs.trans hsq⟩
  | order hp =>
    cases hv
    exact ⟨_, rfl, hp.map _⟩
  | entry _ _ _ _ =>
    cases hv
    exact ⟨_, rfl, .of_eq (by simp [Fields.names])⟩
  | row _ _ _ => cases hv

theorem Rearranged.distinct {v w : Value} (h : Rearranged v w) (hv : v.Distinct) : w.Distinct := by
  induction h with
  | refl => exact hv
  | trans _ _ ih₁ ih₂ => exact ih₂ (ih₁ hv)
  | order hp => exact .record ((hp.map _).nodup hv.names) fun p h => hv.entries p (hp.mem_iff.mpr h)
  | entry before after n _ ih =>
    refine .record ?_ ?_
    · have hnames := hv.names
      simp only [Fields.names, List.map_append, List.map_cons] at hnames ⊢
      exact hnames
    · have hentries := hv.entries
      simp only [List.forall_mem_append, List.forall_mem_cons] at hentries ⊢
      exact ⟨hentries.1, ih hentries.2.1, hentries.2.2⟩
  | row before after _ ih =>
    have hrows := hv.rows
    simp only [List.forall_mem_append, List.forall_mem_cons] at hrows
    refine .table ?_
    simp only [List.forall_mem_append, List.forall_mem_cons]
    exact ⟨hrows.1, ih hrows.2.1, hrows.2.2⟩

theorem toList_inBraces (items : List String) (separator : String) :
    (inBraces items separator).toList =
      '\x7b' :: (separator.toList.intercalate (items.map String.toList) ++ ['\x7d']) := by
  rw [inBraces, String.toList_append, String.toList_append, String.toList_intercalate]
  rfl

theorem toList_inBrackets (items : List String) (separator : String) :
    (inBrackets items separator).toList =
      '[' :: (separator.toList.intercalate (items.map String.toList) ++ [']']) := by
  rw [inBrackets, String.toList_append, String.toList_append, String.toList_intercalate]
  rfl

theorem canonicalEntries_eq (es : List (String × Value)) :
    canonicalEntries es = es.map fun p => (p.1, p.2.canonical) := by
  induction es with
  | nil => rfl
  | cons p es ih => rw [canonicalEntries, ih, List.map_cons]

theorem canonicalRows_eq (t : Table) : canonicalRows t = t.map canonicalRecord := by
  induction t with
  | nil => rfl
  | cons r t ih => rw [canonicalRows, ih, List.map_cons]

theorem canonicalItems_ofValues (vs : List Value) :
    canonicalItems (Table.ofValues vs) = vs.map canonical := by
  induction vs with
  | nil => rfl
  | cons v vs ih =>
    rw [List.map_cons, ← ih]
    rfl

theorem canonical_ofValues (vs : List Value) :
    (table (Table.ofValues vs)).canonical = inBrackets (vs.map canonical) "," := by
  rw [canonical, if_pos (Table.isColumn_ofValues vs), canonicalItems_ofValues]

theorem canonical_rows {t : Table} (h : ¬ Table.isColumn t) :
    (table t).canonical = "Table(" ++ String.intercalate "," (t.map canonicalRecord) ++ ")" := by
  rw [canonical, if_neg h, canonicalRows_eq]

theorem sortedEntries_pairwise (es : List (String × String)) :
    (sortedEntries es).Pairwise fun a b => a.1 ≤ b.1 := by
  have hsorted : (sortedEntries es).Pairwise fun a b => decide (a.1 ≤ b.1) = true :=
    List.pairwise_mergeSort
      (fun a b c hab hbc => by
        simp only [decide_eq_true_eq] at hab hbc ⊢
        exact String.le_trans hab hbc)
      (fun a b => by simpa using String.le_total a.1 b.1) es
  exact hsorted.imp of_decide_eq_true

theorem sortedEntries_eq_of_perm {es fs : List (String × String)} (h : es.Perm fs)
    (hn : (es.map Prod.fst).Nodup) : sortedEntries es = sortedEntries fs := by
  have hes : (sortedEntries es).Perm es := List.mergeSort_perm es _
  have hfs : (sortedEntries fs).Perm fs := List.mergeSort_perm fs _
  refine List.Perm.eq_of_pairwise (fun a b ha hb hab hba => ?_) (sortedEntries_pairwise es)
    (sortedEntries_pairwise fs) (hes.trans (h.trans hfs.symm))
  have hb := h.mem_iff.mpr (hfs.mem_iff.mp hb)
  exact List.inj_on_of_nodup_map hn (hes.mem_iff.mp ha) hb (String.le_antisymm hab hba)

theorem canonical_of_perm {es fs : List (String × Value)} (h : es.Perm fs)
    (hn : (es.map Prod.fst).Nodup) : (record ⟨fs⟩).canonical = (record ⟨es⟩).canonical := by
  have hsorted : sortedEntries (canonicalEntries es) = sortedEntries (canonicalEntries fs) := by
    rw [canonicalEntries_eq, canonicalEntries_eq]
    refine sortedEntries_eq_of_perm (h.map _) ?_
    rw [List.map_map]
    exact hn
  rw [canonical, canonical, canonicalRecord, canonicalRecord, hsorted]

theorem canonicalRecord_valueRow (v : Value) :
    canonicalRecord (Table.valueRow v) = "\x7bValue:" ++ v.canonical ++ "\x7d" := by
  have hsorted : sortedEntries [("Value", v.canonical)] = [("Value", v.canonical)] :=
    List.mergeSort_singleton _
  rw [Table.valueRow, canonicalRecord, canonicalEntries_eq, List.map_singleton, Table.valueColumn,
    hsorted, List.map_singleton, inBraces, String.intercalate_singleton, ← String.append_assoc,
    ← String.append_assoc]
  rfl

/-- The text of a table comes from the texts of its rows: an item of a column is its row without
what all such rows have. -/
theorem canonical_table_congr {t u : Table} (hcolumn : Table.isColumn t = Table.isColumn u)
    (hrows : t.map canonicalRecord = u.map canonicalRecord) :
    (table t).canonical = (table u).canonical := by
  by_cases ht : Table.isColumn t
  · obtain ⟨vs, rfl⟩ := Table.isColumn_iff.mp ht
    obtain ⟨ws, rfl⟩ := Table.isColumn_iff.mp (hcolumn ▸ ht)
    have hitems : vs.map canonical = ws.map canonical := by
      rw [Table.ofValues, Table.ofValues, List.map_map, List.map_map] at hrows
      have hrow : canonicalRecord ∘ Table.valueRow =
          (fun s : String => "\x7bValue:" ++ s ++ "\x7d") ∘ canonical :=
        funext canonicalRecord_valueRow
      rw [hrow, ← List.map_map, ← List.map_map] at hrows
      refine Function.Injective.list_map (fun s t hst => ?_) hrows
      exact (String.append_right_inj _).mp ((String.append_left_inj _).mp hst)
    rw [canonical_ofValues, canonical_ofValues, hitems]
  · have hu : ¬ Table.isColumn u := by rwa [← hcolumn]
    rw [canonical_rows ht, canonical_rows hu, hrows]

theorem isColumn_of_row {before after : Table} {r s : Record} (h : r.names.Perm s.names) :
    Table.isColumn (before ++ s :: after) = Table.isColumn (before ++ r :: after) := by
  have hnames : (s.names == [Table.valueColumn]) = (r.names == [Table.valueColumn]) := by
    rw [Bool.eq_iff_iff, beq_iff_eq, beq_iff_eq, ← List.perm_singleton, ← List.perm_singleton]
    exact ⟨h.trans, h.symm.trans⟩
  simp only [Table.isColumn, List.all_append, List.all_cons, hnames]

/-- A value and the same value with fields in another order have one canonical form. -/
theorem canonical_of_rearranged {v w : Value} (hv : v.Distinct) (h : Rearranged v w) :
    w.canonical = v.canonical := by
  induction h with
  | refl => rfl
  | trans h _ ih₁ ih₂ => exact (ih₂ (h.distinct hv)).trans (ih₁ hv)
  | order hp => exact canonical_of_perm hp hv.names
  | entry before after n _ ih =>
    have hvw := ih (hv.entries (n, _) (by simp))
    simp only [canonical, canonicalRecord, canonicalEntries_eq, List.map_append, List.map_cons, hvw]
  | row before after h ih =>
    obtain ⟨s, ⟨⟩, hn⟩ := h.of_record
    have hc := ih (hv.rows _ (by simp))
    simp only [canonical] at hc
    refine canonical_table_congr (isColumn_of_row hn) ?_
    rw [List.map_append, List.map_append, List.map_cons, List.map_cons, hc]

/-- A record with a table of records, whose fields trade places inside and outside, and with a
column of records. -/
theorem canonical_of_rearranged_order :
    (record ⟨[("notes", .table (Table.ofValues [.record ⟨[("to", .text "Ann"), ("by", .blank)]⟩])),
        ("lines", .table [⟨[("open", .boolean true), ("item", .text "tea")]⟩, .empty])]⟩).canonical =
      (record ⟨[("lines", .table [⟨[("item", .text "tea"), ("open", .boolean true)]⟩, .empty]),
        ("notes",
          .table (Table.ofValues [.record ⟨[("by", .blank), ("to", .text "Ann")]⟩]))]⟩).canonical := by
  refine canonical_of_rearranged ?_ (.trans (.trans
    (.entry [] _ _ (.row [] _ (.order (.swap ..))))
    (.entry [_] _ _ (.row [] _ (.entry [] _ _ (.order (.swap ..))))))
    (.order (.swap ..)))
  have pair {n m : String} {v w : Value} (hnm : n ≠ m) (hv : v.Distinct) (hw : w.Distinct) :
      Distinct (.record ⟨[(n, v), (m, w)]⟩) :=
    .record (by simpa [Fields.names] using hnm)
      (List.forall_mem_cons.mpr ⟨hv, List.forall_mem_singleton.mpr hw⟩)
  have hline := pair (n := "item") (m := "open") (v := .text "tea") (w := .boolean true) (by decide)
    (.scalar rfl) (.scalar rfl)
  have hnote := pair (n := "by") (m := "to") (v := .blank) (w := .text "Ann") (by decide)
    (.scalar rfl) (.scalar rfl)
  refine pair (by decide) (.table ?_) (.ofValues (List.forall_mem_singleton.mpr hnote))
  exact List.forall_mem_cons.mpr ⟨hline, List.forall_mem_singleton.mpr (.record .nil nofun)⟩

end Value

end FormulaShell
