import FormulaShell.Proofs.Value.Insertion
import FormulaShell.Proofs.Workbook.InPlace

namespace FormulaShell

open FormulaShell.Formula FormulaShell.Hosted FormulaShell.Json

namespace Workbook

variable {σ : Type} {P : Value → Prop} {w w' : Workbook σ} {world : σ}

/-- The values of a workbook have the property, and its host keeps it. -/
structure Holds (P : Value → Prop) (w : Workbook σ) : Prop where
  values : ∀ n v, w.values.get? n = some v → P v
  hosts : ∀ n h, w.hosts.get? n = some h → h.Keeps P

theorem holds_empty : Holds P (.empty : Workbook σ) := ⟨nofun, nofun⟩

theorem Holds.of_values (h : w.Holds P) (hv : w'.values = w.values) (hh : w'.hosts = w.hosts) :
    w'.Holds P :=
  ⟨hv ▸ h.values, hh ▸ h.hosts⟩

theorem Holds.write (h : w.Holds P) {name : String} {v : Value} (hv : P v)
    (values : w'.values = w.values.insert name v) (hosts : w'.hosts = w.hosts) : w'.Holds P := by
  refine ⟨fun n u hu => ?_, hosts ▸ h.hosts⟩
  rw [values, Fields.get?_insert] at hu
  split at hu
  · cases hu
    exact hv
  · exact h.values n u hu

theorem Holds.addHost (h : w.Holds P) {name : String} {f : HostFunction σ} (hf : f.Keeps P) :
    (w.addHost name f).Holds P := by
  refine ⟨h.values, fun n g hg => ?_⟩
  rw [Workbook.addHost, Fields.get?_insert] at hg
  split at hg
  · cases hg
    exact hf
  · exact h.hosts n g hg

def Operation.Gives (P : Value → Prop) : Operation σ → Prop
  | .request (.update _ v) => P v
  | .request (.evaluate _ bindings _) => P (.record bindings)
  | .request _ => True
  | .host _ f => f.Keeps P

section

variable (hP : Lasting P)
include hP

theorem Holds.supplied (h : w.Holds P) {bindings : Record} (hb : P (.record bindings))
    (poll : Poll σ) : Supplied P (w.environment bindings poll) where
  globals := h.values
  bindings _ _ := hP.get? hb
  hosts := h.hosts
  faults := rfl

theorem Holds.evaluate (h : w.Holds P) {source : String} {bindings : Record} {poll : Poll σ}
    {v : Value} (hb : P (.record bindings))
    (hv : (w.evaluate source bindings poll world).1 = .ok v) : P v := by
  rw [Workbook.evaluate] at hv
  cases hp : w.prepare source bindings with
  | error e =>
    rw [hp] at hv
    cases hv
  | ok e =>
    rw [hp] at hv
    cases hr : (Formula.evaluate (w.environment bindings poll) e world).1 with
    | error i =>
      simp only [hr] at hv
      cases hv
    | ok u =>
      simp only [hr] at hv
      cases hv
      exact hP.evaluate_of_supplied (h.supplied hP hb poll) e world hr

theorem Holds.settle (h : w.Holds P) (e : Expr) (world : σ) :
    P (settledValue (w.settle e world).1) := by
  rw [Workbook.settle]
  cases hr : (Formula.evaluate (w.environment .empty .never) e world).1 with
  | error i => exact hP.scalar rfl
  | ok v => exact hP.evaluate_of_supplied (h.supplied hP hP.empty .never) e world hr

theorem Holds.recalculate (h : w.Holds P) {dirty : List String} {fs : List NamedFormula} :
    (recalculate dirty w world fs).1.workbook.Holds P := by
  induction fs generalizing dirty w world with
  | nil => exact h
  | cons f fs ih =>
    by_cases hd : f.dependencies.any dirty.contains
    · rw [recalculate_dirty hd]
      have hv : (w.refreshed world f).Holds P := h.write (h.settle hP f.expr world) rfl rfl
      exact ih hv
    · rw [recalculate_clean hd]
      exact ih h

theorem Holds.step (h : w.Holds P) {r : Request σ} (hg : (Operation.request r).Gives P)
    (hs : Step w world r w') : w'.Holds P := by
  cases hs with
  | @update name v _ hc =>
    obtain ⟨-, lock, -, rfl⟩ := update_ok hc
    have ha : (w.assigned name lock v).Holds P := h.write hg rfl rfl
    exact ha.recalculate hP
  | define hc =>
    obtain ⟨-, -, e, v, -, hv, rfl⟩ := define_ok hc
    have hsettled := h.settle hP e world
    rw [hv] at hsettled
    exact h.write hsettled rfl rfl
  | functions hw =>
    obtain ⟨batch, -, -, rfl⟩ := defineFunctions_ok hw
    exact h.of_values rfl rfl
  | same => exact h

theorem Holds.operateAll {d : Desk σ} (h : d.workbook.Holds P) {ops : List (Operation σ)}
    (hg : ∀ op ∈ ops, op.Gives P) : (d.operateAll ops).workbook.Holds P := by
  induction ops generalizing d with
  | nil => exact h
  | cons op ops ih =>
    rw [List.forall_mem_cons] at hg
    refine ih ?_ hg.2
    cases op with
    | request r =>
      rw [Desk.operate, workbook_perform]
      exact h.step hP hg.1 (step_perform d.workbook d.world r)
    | host name f => exact h.addHost hg.1

end

/-- A record is the map that insertions make, in whatever way it comes about: the literal inserts
the values of its fields, the scope of a row inserts the row, and a document's object inserts its
members. So no name stands twice in any record that an evaluation comes to, at any depth, if none
does in what is given. -/
theorem records_are_maps :
    (∀ pairs : List (String × Value), (Fields.ofList pairs).Inserted pairs) ∧
    (∀ (pairs : List (String × Value)) (name : String) (v : Value),
      (Fields.ofList pairs).insert name v = .ofList (pairs ++ [(name, v)])) ∧
    (∀ (env : Environment σ) enter frames fields,
      eval env enter frames (.record fields) = (do
        visit env
        let vs ← evalAll env enter frames (fields.map Prod.snd)
        return .record (.ofList ((fields.map Prod.fst).zip vs)))) ∧
    (∀ pairs, rowFrame (.ofList pairs) =
      .ofList (pairs ++ [(thisRecord, .record (.ofList pairs))])) ∧
    (∀ levels node ms, Document.ofNode? levels node = some (.object ms) →
      recordOf ms = .ofList (ms.map fun m => (m.1, Hosted.valueOf m.2))) ∧
    (∀ context bindings, bindingsOf context = .ok bindings → (Value.record bindings).Distinct) ∧
    (∀ (env : Environment σ) depth frames e, Supplied Value.Distinct env →
      frames.All Value.Distinct → Returns Value.Distinct (evalAt env depth frames e)) ∧
    ∀ (world : σ) ops, (∀ op ∈ ops, op.Gives Value.Distinct) →
      let d := (Desk.start world).operateAll ops
      (∀ n v, d.workbook.valueOf? n = some v → v.Distinct) ∧
        ∀ source bindings poll v, (Value.record bindings).Distinct →
          (d.workbook.evaluate source bindings poll d.world).1 = .ok v → v.Distinct := by
  refine ⟨Fields.inserted_ofList, fun pairs name v => (Fields.ofList_concat pairs (name, v)).symm,
    eval_record, fun pairs => (Fields.ofList_concat pairs (_, _)).symm, fun levels node ms h => ?_,
    fun _ _ => distinct_bindingsOf, fun env depth frames e he hf => ?_, fun world ops hg => ?_⟩
  · cases distinct_ofNode? node h with
    | scalar h => cases h
    | object hn _ => exact recordOf_eq_ofList hn
  · exact lasting_distinct.evalAt he hf depth e
  · have h := Holds.operateAll lasting_distinct (d := Desk.start world) holds_empty hg
    exact ⟨h.values, fun _ _ _ _ hb hv => h.evaluate lasting_distinct hb hv⟩

def echo : HostFunction Unit := ⟨.exactly 1, fun vs world => (vs.head?.getD .blank, world)⟩

def nestedOperations : List (Operation Unit) :=
  [.host "Echo" echo,
    .request (.update "r" (.record ⟨[("inner", .record ⟨[("x", .text "one")]⟩)]⟩))]

def repetitiveNode : Node :=
  .object [([.char 'b'], .null), ([.char 'a'], .boolean true), ([.char 'b'], .boolean false)]

theorem records_of_nestedOperations :
    (∃ ms, Document.ofNode? 1 repetitiveNode = some (.object ms) ∧
      recordOf ms = .ofList (ms.map fun m => (m.1, Hosted.valueOf m.2))) ∧
    Returns Value.Distinct (evalAt (Workbook.empty.environment .empty (Poll.never : Poll Unit)) 1
      [⟨[("x", .text "one")]⟩] (.record [("y", .name "x" 0), ("y", .number 2.0)])) ∧
    (∀ op ∈ nestedOperations, op.Gives Value.Distinct) ∧
    ∃ v, (((Desk.start ()).operateAll nestedOperations).workbook.evaluate "Table(r, Echo(r))" .empty
      .never ()).1 = .ok v ∧ v.kind = .table ∧ v.Distinct := by
  obtain ⟨-, -, -, -, hobject, hcontext, heval, hoperations⟩ := @records_are_maps Unit
  have hone {n : String} {v : Value} (hv : v.Distinct) : (Value.record ⟨[(n, v)]⟩).Distinct :=
    .record (List.nodup_singleton n) (List.forall_mem_singleton.mpr hv)
  have hgives : ∀ op ∈ nestedOperations, op.Gives Value.Distinct := by
    rw [nestedOperations, List.forall_mem_cons, List.forall_mem_singleton]
    refine ⟨fun vs world hvs => ?_, hone (hone (.scalar rfl))⟩
    cases vs with
    | nil => exact .scalar rfl
    | cons v vs => exact hvs v (List.mem_cons_self ..)
  refine ⟨⟨_, rfl, hobject 1 repetitiveNode _ rfl⟩, heval _ 1 _ _ ⟨nofun, nofun, nofun, rfl⟩
    (List.forall_mem_singleton.mpr (hone (.scalar rfl))), hgives, ?_⟩
  have hkind : (((Desk.start ()).operateAll nestedOperations).workbook.evaluate
      "Table(r, Echo(r))" .empty .never ()).1.toOption.map Value.kind = some .table := by
    decide +kernel
  generalize hr : (((Desk.start ()).operateAll nestedOperations).workbook.evaluate
    "Table(r, Echo(r))" .empty .never ()).1 = r at hkind
  cases r with
  | error e => cases hkind
  | ok v =>
    refine ⟨v, rfl, Option.some.inj hkind, ?_⟩
    exact (hoperations () nestedOperations hgives).2 _ _ _ v (hcontext none .empty rfl) hr

end Workbook

end FormulaShell
