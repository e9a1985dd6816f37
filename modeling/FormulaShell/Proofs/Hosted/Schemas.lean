import FormulaShell.Formula.Eval
import FormulaShell.Hosted.Context
import FormulaShell.Proofs.Fields
import Mathlib.Data.List.Forall2

namespace FormulaShell

/-- Any two have the same names, in whatever order. -/
def Fields.SameNames {α : Type} (rows : List (Fields α)) : Prop :=
  ∀ r ∈ rows, ∀ s ∈ rows, ∀ n, n ∈ r.names ↔ n ∈ s.names

/-- A table in a value, at any depth. -/
inductive Value.HasTable (t : Table) : Value → Prop where
  | whole : HasTable t (.table t)
  | row {u : Table} {r : Record} : r ∈ u → HasTable t (.record r) → HasTable t (.table u)
  | field {r : Record} {p : String × Value} : p ∈ r.entries → HasTable t p.2 →
      HasTable t (.record r)

namespace Hosted

open FormulaShell.Formula FormulaShell.Json

/-- An array in a document, at any depth. What is inside an array that holds anything but objects
does not count: it has no rows to be read as. -/
inductive HasArray (items : List Document) : Document → Prop where
  | whole : HasArray items (.array items)
  | item {ds : List Document} {d : Document} : ds.all isObject → d ∈ ds → HasArray items d →
      HasArray items (.array ds)
  | member {ms : List (String × Document)} {m : String × Document} : m ∈ ms → HasArray items m.2 →
      HasArray items (.object ms)

def membersOf : Document → Fields Document
  | .object members => ⟨members⟩
  | _ => .empty

theorem fieldsOf_eq_map (ms : List (String × Document)) :
    fieldsOf ms = ms.map fun m => (m.1, valueOf m.2) := by
  induction ms with
  | nil => rw [fieldsOf, List.map_nil]
  | cons m ms ih => rw [fieldsOf, List.map_cons, ih]

theorem valuesOf_eq_map (ds : List Document) : valuesOf ds = ds.map valueOf := by
  induction ds with
  | nil => rw [valuesOf, List.map_nil]
  | cons d ds ih => rw [valuesOf, List.map_cons, ih]

theorem rowsOf_eq_map {ds : List Document} (h : ds.all isObject) :
    rowsOf ds = ds.map fun d => recordOf (membersOf d).entries := by
  induction ds with
  | nil => rw [rowsOf, List.map_nil]; simp
  | cons d ds ih =>
    rw [List.all_cons, Bool.and_eq_true] at h
    cases d with
    | object ms => rw [rowsOf, List.map_cons, ih h.2]; rfl
    | _ => cases h.1

theorem names_recordOf (ms : List (String × Document)) :
    (recordOf ms).names = (⟨ms⟩ : Fields Document).names := by
  simp [recordOf, Fields.names, fieldsOf_eq_map, Function.comp_def]

theorem get?_recordOf (ms : List (String × Document)) (n : String) :
    (recordOf ms).get? n = ((⟨ms⟩ : Fields Document).get? n).map valueOf := by
  rw [recordOf, fieldsOf_eq_map]
  change Fields.find? n _ = (Fields.find? n ms).map valueOf
  induction ms with
  | nil => rfl
  | cons m ms ih =>
    by_cases hm : m.1 = n
    · simp [Fields.find?, hm]
    · simp only [List.map_cons, Fields.find?, if_neg hm, ih]

theorem exists_object {d : Document} (h : isObject d) : ∃ ms, d = .object ms := by
  cases d with
  | object ms => exact ⟨ms, rfl⟩
  | _ => cases h

theorem sameNames_rowsOf {ds : List Document} (h : ds.all isObject) :
    Fields.SameNames (rowsOf ds) ↔ Fields.SameNames (ds.map membersOf) := by
  simp only [Fields.SameNames, rowsOf_eq_map h, List.forall_mem_map, names_recordOf]

theorem sameNames_ofValues (vs : List Value) : Fields.SameNames (Table.ofValues vs) := by
  intro r hr s hs n
  obtain ⟨v, -, rfl⟩ := List.mem_map.mp hr
  obtain ⟨w, -, rfl⟩ := List.mem_map.mp hs
  rfl

theorem valueOf_objects {ds : List Document} (h : ds.all isObject) :
    valueOf (.array ds) = .table (rowsOf ds) := by
  rw [valueOf, if_pos h]

theorem valueOf_eq_table {d : Document} {t : Table} (h : valueOf d = .table t) :
    ∃ ds, d = .array ds ∧ (ds.all isObject ∧ t = rowsOf ds ∨
      ds.all isScalar ∧ t = Table.ofValues (valuesOf ds)) := by
  cases d with
  | array ds =>
    refine ⟨ds, rfl, ?_⟩
    rw [valueOf] at h
    split at h
    next ho =>
      cases h
      exact .inl ⟨ho, rfl⟩
    next =>
      split at h
      next hs =>
        cases h
        exact .inr ⟨hs, rfl⟩
      next => cases h
  | _ =>
    rw [valueOf] at h
    cases h

theorem valueOf_eq_record {d : Document} {r : Record} (h : valueOf d = .record r) :
    ∃ ms, d = .object ms ∧ r = recordOf ms := by
  cases d with
  | object ms =>
    rw [valueOf] at h
    cases h
    exact ⟨ms, rfl, rfl⟩
  | array ds =>
    rw [valueOf] at h
    split at h
    next => cases h
    next => split at h <;> cases h
  | _ =>
    rw [valueOf] at h
    cases h

theorem not_hasTable_of_isScalar {d : Document} {t : Table} (h : isScalar d) :
    ¬ (valueOf d).HasTable t := by
  intro ht
  cases d with
  | object | array => cases h
  | _ =>
    rw [valueOf] at ht
    cases ht

theorem hasTable_valueOf {d : Document} {t : Table} :
    (valueOf d).HasTable t ↔ ∃ ds, HasArray ds d ∧ valueOf (.array ds) = .table t := by
  constructor
  · intro h
    generalize hv : valueOf d = v at h
    induction h generalizing d with
    | whole =>
      obtain ⟨ds, rfl, -⟩ := valueOf_eq_table hv
      exact ⟨ds, .whole, hv⟩
    | @row u r hr ht ih =>
      obtain ⟨ds, rfl, ⟨ho, rfl⟩ | ⟨hs, rfl⟩⟩ := valueOf_eq_table hv
      · rw [rowsOf_eq_map ho] at hr
        obtain ⟨d, hd, rfl⟩ := List.mem_map.mp hr
        obtain ⟨ms, rfl⟩ := exists_object (List.all_eq_true.mp ho d hd)
        obtain ⟨es, hes, htable⟩ := ih (d := .object ms) (by rw [valueOf]; rfl)
        exact ⟨es, .item ho hd hes, htable⟩
      · -- a row of a single scalar holds no table
        rw [valuesOf_eq_map] at hr
        obtain ⟨v, hv, rfl⟩ := List.mem_map.mp hr
        obtain ⟨d, hd, rfl⟩ := List.mem_map.mp hv
        cases ht with
        | field hp ht =>
          obtain rfl := List.mem_singleton.mp hp
          exact absurd ht (not_hasTable_of_isScalar (List.all_eq_true.mp hs d hd))
    | @field r p hp _ ih =>
      obtain ⟨ms, rfl, rfl⟩ := valueOf_eq_record hv
      rw [recordOf, fieldsOf_eq_map] at hp
      obtain ⟨m, hm, rfl⟩ := List.mem_map.mp hp
      obtain ⟨es, hes, htable⟩ := ih rfl
      exact ⟨es, .member hm hes, htable⟩
  · rintro ⟨ds, h, htable⟩
    induction h with
    | whole =>
      rw [htable]
      exact .whole
    | @item es d ho hd _ ih =>
      obtain ⟨ms, rfl⟩ := exists_object (List.all_eq_true.mp ho d hd)
      rw [valueOf] at ih
      rw [valueOf_objects ho, rowsOf_eq_map ho]
      exact .row (List.mem_map_of_mem hd) ih
    | @member ms m hm _ ih =>
      rw [valueOf, recordOf, fieldsOf_eq_map]
      exact .field (List.mem_map_of_mem hm) ih

theorem lookup_rowFrame {σ : Type} (env : Environment σ) (frames : Frames) (row : Record)
    {n : String} (h : n ≠ thisRecord) :
    lookup env (rowFrame row :: frames) n = (row.get? n).getD (lookup env frames n) := by
  have hrow : (rowFrame row).get? n = row.get? n := Fields.get?_insert_ne (Ne.symm h)
  rw [lookup, List.findSome?_cons, hrow]
  cases row.get? n with
  | none => rfl
  | some v => rfl

/-- The tables of a value all have rows of the same names exactly if the arrays of objects in its
document have objects of the same names. A row is read as its object: a name that the object has
not means in it what it means outside the table. -/
theorem schemas_valueOf (d : Document) :
    ((∀ t, (valueOf d).HasTable t → Fields.SameNames t) ↔
      ∀ ds, HasArray ds d → ds.all isObject → Fields.SameNames (ds.map membersOf)) ∧
    ∀ ds, HasArray ds d → ds.all isObject → ∃ t, (valueOf d).HasTable t ∧
      List.Forall₂ (fun item row => ∀ (σ : Type) (env : Environment σ) (frames : Frames) n,
        n ≠ thisRecord → lookup env (rowFrame row :: frames) n =
          (((membersOf item).get? n).map valueOf).getD (lookup env frames n)) ds t := by
  refine ⟨⟨fun h ds hds ho => ?_, fun h t ht => ?_⟩, fun ds hds ho => ⟨rowsOf ds, ?_, ?_⟩⟩
  · exact (sameNames_rowsOf ho).mp (h _ (hasTable_valueOf.mpr ⟨ds, hds, valueOf_objects ho⟩))
  · obtain ⟨ds, hds, htable⟩ := hasTable_valueOf.mp ht
    obtain ⟨es, hes, ⟨ho, rfl⟩ | ⟨-, rfl⟩⟩ := valueOf_eq_table htable
    · cases hes
      exact (sameNames_rowsOf ho).mpr (h ds hds ho)
    · exact sameNames_ofValues _
  · exact hasTable_valueOf.mpr ⟨ds, hds, valueOf_objects ho⟩
  · rw [rowsOf_eq_map ho, List.forall₂_map_right_iff, List.forall₂_same]
    intro item _ σ env frames n hn
    rw [lookup_rowFrame env frames _ hn, get?_recordOf]

def raggedItems : List Document :=
  [.object [("a", .text "x")], .object [("b", .text "y")]]

theorem raggedItems_schemas : ¬ (∀ t, (valueOf (.array raggedItems)).HasTable t →
    Fields.SameNames t) ∧
    ∃ t, (valueOf (.array raggedItems)).HasTable t ∧ t.map (fun row =>
      lookup (⟨.empty, .empty, .empty, .empty, .never, .standard⟩ : Environment Unit)
        [rowFrame row] "a") = [.text "x", .error (unknownNameMessage "a")] := by
  obtain ⟨hiff, hread⟩ := schemas_valueOf (.array raggedItems)
  refine ⟨fun h => ?_, ?_⟩
  · have hnames := hiff.mp h raggedItems .whole rfl _ (.head _) _ (.tail _ (.head _)) "a"
    exact absurd (hnames.mp (by decide)) (by decide)
  · obtain ⟨t, ht, hrows⟩ := hread raggedItems .whole rfl
    refine ⟨t, ht, ?_⟩
    cases hrows with
    | cons hx hrows =>
      cases hrows with
      | cons hy hrows =>
        cases hrows
        rw [List.map_cons, List.map_cons, hx _ _ _ _ (by decide), hy _ _ _ _ (by decide)]
        simp [membersOf, Fields.get?, Fields.find?, Fields.empty, valueOf, lookup, Faults.standard]

end Hosted

end FormulaShell
