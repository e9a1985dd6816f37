import FormulaShell.Hosted.Context
import FormulaShell.Proofs.Formula.Lasting
import FormulaShell.Proofs.Hosted.Schemas
import FormulaShell.Proofs.Value.Rearrangement
import FormulaShell.Proofs.Value.Union
import Mathlib.Data.Finset.Card

namespace FormulaShell

theorem nodup_eraseDups {α : Type} [BEq α] [LawfulBEq α] (xs : List α) : xs.eraseDups.Nodup :=
  (pairwise_idxOf_eraseDups xs).imp fun hlt heq => hlt.ne (congrArg (xs.idxOf ·) heq)

namespace Fields

variable {α : Type} {f : Fields α} {n : String} {v : α}

/-- What the map has to be after the insertions, made one after the other into an empty map. -/
structure Inserted (f : Fields α) (pairs : List (String × α)) : Prop where
  names : f.names = (pairs.map Prod.fst).eraseDups
  get? : ∀ n, f.get? n = (pairs.reverse.find? (·.1 == n)).map Prod.snd
  size : f.size = (pairs.map Prod.fst).toFinset.card

theorem names_insert :
    (f.insert n v).names = if n ∈ f.names then f.names else f.names ++ [n] :=
  map_fst_put f.entries

theorem ofList_concat (pairs : List (String × α)) (p : String × α) :
    ofList (pairs ++ [p]) = (ofList pairs).insert p.1 p.2 :=
  List.foldl_concat ..

theorem names_ofList (pairs : List (String × α)) :
    (ofList pairs).names = (pairs.map Prod.fst).eraseDups := by
  induction pairs using List.reverseRecOn with
  | nil => rfl
  | append_singleton pairs p ih =>
    rw [ofList_concat, names_insert, ih, List.map_append, List.map_singleton]
    simp only [List.mem_eraseDups]
    split
    next hp => rw [eraseDups_concat_of_mem hp]
    next hp => rw [eraseDups_concat_of_notMem hp]

theorem get?_ofList (pairs : List (String × α)) (n : String) :
    (ofList pairs).get? n = (pairs.reverse.find? (·.1 == n)).map Prod.snd := by
  induction pairs using List.reverseRecOn with
  | nil => rfl
  | append_singleton pairs p ih =>
    rw [ofList_concat, get?_insert, List.reverse_concat, List.find?_cons]
    by_cases hp : p.1 = n
    · rw [if_pos hp, beq_iff_eq.mpr hp]
      rfl
    · rw [if_neg hp, beq_eq_false_iff_ne.mpr hp, ih]

theorem nodup_names_ofList (pairs : List (String × α)) : (ofList pairs).names.Nodup := by
  induction pairs using List.reverseRecOn with
  | nil => exact List.nodup_nil
  | append_singleton pairs p ih =>
    rw [ofList_concat]
    exact nodup_names_insert ih

theorem mem_of_mem_ofList {pairs : List (String × α)} {p : String × α}
    (h : p ∈ (ofList pairs).entries) : p ∈ pairs := by
  induction pairs using List.reverseRecOn with
  | nil => cases h
  | append_singleton pairs q ih =>
    rw [ofList_concat] at h
    obtain rfl | h := mem_put h
    · exact List.mem_append_right pairs (List.mem_singleton_self _)
    · exact List.mem_append_left [q] (ih h)

theorem inserted_ofList (pairs : List (String × α)) : (ofList pairs).Inserted pairs where
  names := names_ofList pairs
  get? := get?_ofList pairs
  size := by
    have hnames : (ofList pairs).names.toFinset = (pairs.map Prod.fst).toFinset := by
      ext n
      rw [names_ofList, List.mem_toFinset, List.mem_eraseDups, List.mem_toFinset]
    rw [← hnames, List.toFinset_card_of_nodup (nodup_names_ofList pairs), names, List.length_map,
      size]

theorem put_of_notMem {es : List (String × α)} (h : n ∉ es.map Prod.fst) :
    put n v es = es ++ [(n, v)] := by
  induction es with
  | nil => rfl
  | cons p es ih =>
    rw [List.map_cons, List.mem_cons, not_or] at h
    rw [put, if_neg (Ne.symm h.1), ih h.2, List.cons_append]

theorem ofList_eq_of_nodup {es : List (String × α)} (h : (es.map Prod.fst).Nodup) :
    ofList es = ⟨es⟩ := by
  induction es using List.reverseRecOn with
  | nil => rfl
  | append_singleton es p ih =>
    rw [List.map_append, List.map_singleton, List.nodup_append_comm, List.singleton_append,
      List.nodup_cons] at h
    rw [ofList_concat, ih h.2, insert, put_of_notMem h.1]

end Fields

theorem Value.Distinct.union {t : Table} (h : ∀ r ∈ t, (Value.record r).Distinct) :
    (Value.table (Table.union t)).Distinct := by
  refine .table fun r hr => ?_
  obtain ⟨row, hrow, rfl⟩ := List.mem_map.mp hr
  refine .record ?_ fun p hp => ?_
  · change (Table.pad (Table.columns t) row).names.Nodup
    rw [Table.names_pad]
    exact nodup_eraseDups _
  · obtain ⟨n, -, rfl⟩ := List.mem_map.mp hp
    cases hv : row.get? n with
    | none => exact .scalar rfl
    | some v => exact (h row hrow).entries _ (Fields.mem_of_get? hv)

namespace Formula

theorem lasting_distinct : Lasting Value.Distinct where
  scalar := .scalar
  empty := .record List.nodup_nil (by simp [Fields.empty])
  get? hr hv := hr.entries _ (Fields.mem_of_get? hv)
  insert := .insert
  row h hr := h.rows _ hr
  column := .ofValues
  union := .union
  sublist h hu := .table fun r hr => h.rows r (hu.subset hr)

section

variable {σ : Type} (env : Environment σ) (enter : Enter σ) (frames : Frames)

theorem evalFields_eq (done : List (String × Value)) (fields : List (String × Expr)) :
    evalFields env enter frames (.ofList done) fields = (do
      let vs ← evalAll env enter frames (fields.map Prod.snd)
      return .ofList (done ++ (fields.map Prod.fst).zip vs)) := by
  induction fields generalizing done with
  | nil => simp [evalFields, evalAll]
  | cons p fields ih =>
    rw [evalFields, List.map_cons, evalAll, bind_assoc]
    refine congrArg _ (funext fun v => ?_)
    rw [← Fields.ofList_concat done (p.1, v), ih]
    simp

theorem eval_record (fields : List (String × Expr)) :
    eval env enter frames (.record fields) = (do
      visit env
      let vs ← evalAll env enter frames (fields.map Prod.snd)
      return .record (.ofList ((fields.map Prod.fst).zip vs))) := by
  have h : evalFields env enter frames .empty fields = _ :=
    evalFields_eq env enter frames [] fields
  rw [eval, h]
  simp

end

end Formula

namespace Json

/-- In a document and in everything inside it, the names of an object's members are distinct. -/
inductive Document.Distinct : Document → Prop where
  | scalar {d : Document} : Hosted.isScalar d → Distinct d
  | array {items : List Document} : (∀ d ∈ items, Distinct d) → Distinct (.array items)
  | object {ms : List (String × Document)} : (ms.map Prod.fst).Nodup →
      (∀ m ∈ ms, Distinct m.2) → Distinct (.object ms)

theorem nodup_sortedMembers (ms : List (String × Document)) :
    ((sortedMembers ms).map Prod.fst).Nodup :=
  ((List.mergeSort_perm _ _).map Prod.fst).nodup_iff.mpr (Fields.nodup_names_ofList ms)

theorem mem_of_mem_sortedMembers {ms : List (String × Document)} {m : String × Document}
    (h : m ∈ sortedMembers ms) : m ∈ ms :=
  Fields.mem_of_mem_ofList (List.mem_mergeSort.mp h)

mutual

theorem distinct_ofNode? {levels : Nat} {d : Document} :
    ∀ n : Node, Document.ofNode? levels n = some d → d.Distinct
  | .null, h | .boolean _, h => by
    rw [Document.ofNode?] at h
    cases h
    exact .scalar rfl
  | .number _, h | .text _, h => by
    rw [Document.ofNode?] at h
    obtain ⟨x, -, rfl⟩ := Option.map_eq_some_iff.mp h
    exact .scalar rfl
  | .array items, h => by
    cases levels with
    | zero =>
      rw [Document.ofNode?] at h
      cases h
    | succ levels =>
      rw [Document.ofNode?] at h
      obtain ⟨ds, hds, rfl⟩ := Option.map_eq_some_iff.mp h
      exact .array (distinct_itemsOf? items hds)
  | .object members, h => by
    cases levels with
    | zero =>
      rw [Document.ofNode?] at h
      cases h
    | succ levels =>
      rw [Document.ofNode?] at h
      obtain ⟨ms, hms, rfl⟩ := Option.map_eq_some_iff.mp h
      refine .object (nodup_sortedMembers ms) fun m hm => ?_
      exact distinct_membersOf? members hms m (mem_of_mem_sortedMembers hm)

theorem distinct_itemsOf? {levels : Nat} {ds : List Document} :
    ∀ ns : List Node, itemsOf? levels ns = some ds → ∀ d ∈ ds, d.Distinct
  | [], h => by
    cases h
    simp
  | n :: ns, h => by
    simp only [itemsOf?, Option.bind_eq_bind, Option.bind_eq_some_iff, Option.some.injEq] at h
    obtain ⟨d, hd, ds, hds, rfl⟩ := h
    exact List.forall_mem_cons.mpr ⟨distinct_ofNode? n hd, distinct_itemsOf? ns hds⟩

theorem distinct_membersOf? {levels : Nat} {ms : List (String × Document)} :
    ∀ ns : List (List Piece × Node), membersOf? levels ns = some ms → ∀ m ∈ ms, m.2.Distinct
  | [], h => by
    cases h
    simp
  | (key, n) :: ns, h => by
    simp only [membersOf?, Option.bind_eq_bind, Option.bind_eq_some_iff, Option.some.injEq] at h
    obtain ⟨name, -, d, hd, ds, hds, rfl⟩ := h
    exact List.forall_mem_cons.mpr ⟨distinct_ofNode? n hd, distinct_membersOf? ns hds⟩

end

theorem distinct_read? {s : String} {d : Document} (h : Document.read? s = some d) :
    d.Distinct := by
  obtain ⟨n, -, hn⟩ := Option.bind_eq_some_iff.mp h
  exact distinct_ofNode? n hn

end Json

namespace Hosted

open FormulaShell.Json

theorem distinct_valueOf {d : Document} (h : d.Distinct) : (valueOf d).Distinct := by
  induction h with
  | @scalar d h =>
    cases d with
    | object | array => cases h
    | _ =>
      rw [valueOf]
      exact .scalar rfl
  | @object ms hn _ ih =>
    rw [valueOf]
    refine .record (names_recordOf ms ▸ hn) fun p hp => ?_
    rw [recordOf, fieldsOf_eq_map] at hp
    obtain ⟨m, hm, rfl⟩ := List.mem_map.mp hp
    exact ih m hm
  | @array items _ ih =>
    rw [valueOf]
    split
    next ho =>
      refine .table fun r hr => ?_
      rw [rowsOf_eq_map ho] at hr
      obtain ⟨d, hd, rfl⟩ := List.mem_map.mp hr
      obtain ⟨ms, rfl⟩ := exists_object (List.all_eq_true.mp ho d hd)
      have hrow := ih _ hd
      rw [valueOf] at hrow
      exact hrow
    next =>
      split
      next =>
        refine .ofValues fun v hv => ?_
        rw [valuesOf_eq_map] at hv
        obtain ⟨d, hd, rfl⟩ := List.mem_map.mp hv
        exact ih d hd
      next => exact .scalar rfl

theorem distinct_bindingsOf {context : Option String} {r : Record}
    (h : bindingsOf context = .ok r) : (Value.record r).Distinct := by
  have hempty : (Value.record .empty).Distinct := Formula.lasting_distinct.empty
  unfold bindingsOf at h
  split at h
  · cases h
    exact hempty
  · split at h
    · cases h
      exact hempty
    · split at h
      next ms hread =>
        cases h
        have hd := distinct_valueOf (distinct_read? hread)
        rw [valueOf] at hd
        exact hd
      next =>
        cases h
        exact hempty
      · cases h
      · cases h

theorem recordOf_eq_ofList {ms : List (String × Document)} (h : (ms.map Prod.fst).Nodup) :
    recordOf ms = .ofList (ms.map fun m => (m.1, valueOf m.2)) := by
  rw [recordOf, fieldsOf_eq_map, Fields.ofList_eq_of_nodup]
  rwa [List.map_map]

end Hosted

end FormulaShell
