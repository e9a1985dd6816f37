import FormulaShell.Proofs.Workbook.InPlace
import FormulaShell.Proofs.Workbook.Wellformed

namespace FormulaShell

open FormulaShell.Formula FormulaShell.Text

/-- The values that a name can have. A variable without a lock is blank still. -/
def Binding.Admits : Binding → Value → Prop
  | .formula, _ => True
  | .variable none, v => v = .blank
  | .variable (some k), v => v = .blank ∨ v.kind = k

/-- Whether a name can stand for nothing else anymore. -/
def Binding.isFinal : Binding → Bool
  | .formula | .variable (some _) => true
  | .variable none => false

namespace Workbook

variable {σ : Type} {w w' w'' : Workbook σ} {world : σ}

structure Coherent (w : Workbook σ) : Prop where
  names : ∀ n, w.values.contains n = w.bindings.contains n
  identifiers : ∀ n, w.bindings.contains n → isName n
  formulas : ∀ n, w.bindings.get? n = some .formula ↔ n ∈ w.formulas.map (·.name)
  distinct : (w.formulas.map (·.name)).Nodup
  admitted : ∀ n b, w.bindings.get? n = some b → ∃ v, w.values.get? n = some v ∧ b.Admits v

theorem coherent_empty : Coherent (.empty : Workbook σ) := by
  have unbound (n : String) : (Workbook.empty : Workbook σ).bindings.get? n = none := rfl
  refine ⟨fun _ => rfl, fun n h => ?_, fun n => ?_, List.nodup_nil, fun n b h => ?_⟩
  · rw [Fields.contains, unbound] at h
    cases h
  · rw [unbound]
    simp [empty]
  · rw [unbound] at h
    cases h

theorem Coherent.write (h : Coherent w) {name : String} {b : Binding} {v : Value}
    (hn : isName name) (hb : b.Admits v) (values : w'.values = w.values.insert name v)
    (bindings : ∀ n, w'.bindings.get? n = if name = n then some b else w.bindings.get? n)
    (formulas : ∀ n, w'.bindings.get? n = some .formula ↔ n ∈ w'.formulas.map (·.name))
    (distinct : (w'.formulas.map (·.name)).Nodup) : Coherent w' := by
  refine ⟨fun n => ?_, fun n hc => ?_, formulas, distinct, fun n b' hb' => ?_⟩
  · have hw := h.names n
    rw [Fields.contains, Fields.contains] at hw ⊢
    rw [values, Fields.get?_insert, bindings]
    by_cases he : name = n
    · simp [he]
    · simpa [he] using hw
  · by_cases he : name = n
    · exact he ▸ hn
    · rw [Fields.contains, bindings, if_neg he] at hc
      exact h.identifiers n hc
  · rw [bindings] at hb'
    rw [values, Fields.get?_insert]
    by_cases he : name = n
    · rw [if_pos he, Option.some.injEq] at hb'
      exact ⟨v, if_pos he, hb' ▸ hb⟩
    · rw [if_neg he] at hb' ⊢
      exact h.admitted n b' hb'

theorem lockFor_ok {name : String} {v : Value} {lock : Option Kind}
    (h : w.lockFor name v = .ok lock) :
    (Binding.variable lock).Admits v ∧
      ∀ k, w.bindings.get? name = some (.variable (some k)) → lock = some k := by
  have given : (Binding.variable (if v.isBlank then none else some v.kind)).Admits v := by
    cases v with
    | blank => rfl
    | _ => exact .inr rfl
  rw [lockFor] at h
  rcases hb : w.bindings.get? name with _ | (_ | k) | _
  · rw [hb] at h
    cases h
    exact ⟨given, fun k hk => by cases hk⟩
  · rw [hb] at h
    cases h
    exact ⟨given, fun k hk => by cases hk⟩
  · simp only [hb] at h
    by_cases hv : v.isBlank || v.kind == k
    · rw [if_pos hv] at h
      cases h
      refine ⟨?_, fun k' hk' => by cases hk'; rfl⟩
      rw [Bool.or_eq_true, beq_iff_eq] at hv
      refine hv.imp_left fun hblank => ?_
      cases v with
      | blank => rfl
      | _ => cases hblank
    · rw [if_neg hv] at h
      cases h
  · rw [hb] at h
    cases h

theorem Coherent.assigned (h : Coherent w) {name : String} {v : Value} {lock : Option Kind}
    (hn : isName name) (hl : w.lockFor name v = .ok lock) :
    Coherent (w.assigned name lock v) := by
  have bindings (n : String) : (w.assigned name lock v).bindings.get? n =
      if name = n then some (.variable lock) else w.bindings.get? n := Fields.get?_insert
  refine h.write hn (lockFor_ok hl).1 rfl bindings (fun n => ?_) h.distinct
  rw [bindings]
  by_cases he : name = n
  · rw [if_pos he]
    constructor
    · intro hb
      cases hb
    · intro hm
      exact absurd (he ▸ (h.formulas n).mpr hm) (lockFor_ne_formula hl)
  · rw [if_neg he]
    exact h.formulas n

theorem Coherent.refreshed (h : Coherent w) {f : NamedFormula} (hf : f ∈ w.formulas) :
    Coherent (w.refreshed world f) := by
  have hb : w.bindings.get? f.name = some .formula :=
    (h.formulas f.name).mpr (List.mem_map_of_mem hf)
  have hc : w.bindings.contains f.name := by rw [Fields.contains, hb]; rfl
  refine h.write (b := .formula) (h.identifiers _ hc) trivial rfl (fun n => ?_) h.formulas
    h.distinct
  by_cases he : f.name = n
  · rw [if_pos he, ← he]
    exact hb
  · rw [if_neg he]
    rfl

theorem Coherent.recalculate (h : Coherent w) {dirty : List String} {fs : List NamedFormula}
    (hfs : fs ⊆ w.formulas) : Coherent (recalculate dirty w world fs).1.workbook := by
  induction fs generalizing dirty w world with
  | nil => exact h
  | cons f fs ih =>
    rw [List.cons_subset] at hfs
    by_cases hd : f.dependencies.any dirty.contains
    · rw [recalculate_dirty hd]
      exact ih (h.refreshed hfs.1) hfs.2
    · rw [recalculate_clean hd]
      exact ih h hfs.2

theorem Coherent.define (h : Coherent w) {name source : String} {c : Changed σ}
    (hc : (w.define name source world).1 = .ok c) : Coherent c.workbook := by
  obtain ⟨hn, hb, e, v, -, -, rfl⟩ := define_ok hc
  have hnew : name ∉ w.formulas.map (·.name) := by
    rw [← h.formulas, hb]
    simp
  refine h.write (b := .formula) hn trivial rfl (fun n => Fields.get?_insert) (fun n => ?_) ?_
  · rw [Fields.get?_insert, List.map_append, List.mem_append, ← h.formulas]
    by_cases he : name = n
    · simp [he]
    · simp [he, Ne.symm he]
  · rw [List.map_append]
    exact List.nodup_append.mpr ⟨h.distinct, by simp, by simpa using hnew⟩

theorem Coherent.of_tables (h : Coherent w) (hv : w'.values = w.values)
    (hb : w'.bindings = w.bindings) (hf : w'.formulas = w.formulas) : Coherent w' := by
  obtain ⟨values, bindings, formulas, functions, hosts⟩ := w'
  cases hv
  cases hb
  cases hf
  exact ⟨h.names, h.identifiers, h.formulas, h.distinct, h.admitted⟩

theorem Coherent.step (h : Coherent w) {r : Request σ} (hs : Step w world r w') :
    Coherent w' := by
  cases hs with
  | update hc =>
    obtain ⟨hn, lock, hl, rfl⟩ := update_ok hc
    exact (h.assigned hn hl).recalculate (List.Subset.refl _)
  | define hc => exact h.define hc
  | functions hw =>
    obtain ⟨hf, hb, hv⟩ := defineFunctions_formulas hw
    exact h.of_tables hv hb hf
  | same => exact h

/-- What is final in the first workbook is the same in the second. -/
def Settled (w w' : Workbook σ) : Prop :=
  ∀ n b, w.bindings.get? n = some b → b.isFinal → w'.bindings.get? n = some b

theorem Settled.refl (w : Workbook σ) : Settled w w := fun _ _ h _ => h

theorem Settled.trans (h : Settled w w') (h' : Settled w' w'') : Settled w w'' :=
  fun n b hb hf => h' n b (h n b hb hf) hf

theorem settled_of_insert {name : String} {b : Binding}
    (h : ∀ b', w.bindings.get? name = some b' → b'.isFinal → b' = b)
    (hw : w'.bindings = w.bindings.insert name b) : Settled w w' := by
  intro n b' hb hf
  rw [hw, Fields.get?_insert]
  by_cases he : name = n
  · rw [if_pos he, h b' (he ▸ hb) hf]
  · rw [if_neg he, hb]

theorem settled_step {r : Request σ} (hs : Step w world r w') : Settled w w' := by
  cases hs with
  | @update name v _ hc =>
    obtain ⟨-, lock, hl, rfl⟩ := update_ok hc
    refine settled_of_insert (fun b hb hf => ?_) sameTables_recalculate.bindings
    rcases b with (_ | k) | _
    · cases hf
    · rw [(lockFor_ok hl).2 k hb]
    · exact absurd hb (lockFor_ne_formula hl)
  | define hc =>
    obtain ⟨-, hn, e, v, -, -, rfl⟩ := define_ok hc
    refine settled_of_insert (fun b hb _ => ?_) rfl
    rw [hn] at hb
    cases hb
  | functions hw =>
    obtain ⟨-, hb, -⟩ := defineFunctions_formulas hw
    exact fun n b hn _ => hb ▸ hn
  | same => exact .refl w

theorem Coherent.operate {d : Desk σ} (h : Coherent d.workbook) (op : Operation σ) :
    Coherent (d.operate op).workbook ∧ Settled d.workbook (d.operate op).workbook := by
  cases op with
  | request r =>
    rw [Desk.operate, workbook_perform]
    have hs := step_perform d.workbook d.world r
    exact ⟨h.step hs, settled_step hs⟩
  | host name f => exact ⟨h.of_tables rfl rfl rfl, .refl d.workbook⟩

theorem Coherent.operateAll {d : Desk σ} (h : Coherent d.workbook) (ops : List (Operation σ)) :
    Coherent (d.operateAll ops).workbook ∧
      Settled d.workbook (d.operateAll ops).workbook := by
  induction ops generalizing d with
  | nil => exact ⟨h, .refl d.workbook⟩
  | cons op ops ih =>
    obtain ⟨ho, hs⟩ := h.operate op
    exact ⟨(ih ho).1, hs.trans (ih ho).2⟩

/-- After any operations, failed ones among them, the tables agree; formulas stay formulas and locks
stay locks through all that follows. -/
theorem tables_coherent (world : σ) (before after : List (Operation σ)) :
    Coherent ((Desk.start world).operateAll before).workbook ∧
      Settled ((Desk.start world).operateAll before).workbook
        ((Desk.start world).operateAll (before ++ after)).workbook := by
  have h := (Coherent.operateAll (d := Desk.start world) coherent_empty before).1
  refine ⟨h, ?_⟩
  rw [Desk.operateAll, Desk.operateAll, List.foldl_append]
  exact (h.operateAll after).2

end Workbook

end FormulaShell
