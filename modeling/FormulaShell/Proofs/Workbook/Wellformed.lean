import FormulaShell.Proofs.Workbook.Recalculation
import FormulaShell.Proofs.Workbook.Request

namespace FormulaShell.Workbook

open FormulaShell.Formula

variable {σ : Type} {w w' s : Workbook σ} {world : σ}

/-- No host has given functions; formulas have names of their own; the functions that bodies call
are known. -/
structure Wellformed (w : Workbook σ) : Prop where
  hostless : w.hosts = .empty
  bound : ∀ f ∈ w.formulas, w.bindings.get? f.name = some .formula
  distinct : (w.formulas.map (·.name)).Nodup
  bodies : ∀ g u, w.functions.get? g = some u → ∀ c ∈ u.body.calls, (w.arity? c).isSome

theorem wellformed_empty : Wellformed (.empty : Workbook σ) where
  hostless := rfl
  bound := by simp [empty]
  distinct := by simp [empty]
  bodies g u h := by simp [empty, Fields.get?, Fields.empty, Fields.find?] at h

theorem Wellformed.of_sameTables (h : Wellformed w) (ht : SameTables w w') : Wellformed w' where
  hostless := ht.hosts.trans h.hostless
  bound f hf := by
    rw [ht.bindings]
    exact h.bound f (ht.formulas ▸ hf)
  distinct := by
    rw [ht.formulas]
    exact h.distinct
  bodies g u hu c hc := by
    rw [ht.functions] at hu
    have ha : w'.arity? c = w.arity? c := by rw [arity?, arity?, ht.functions, ht.hosts]
    rw [ha]
    exact h.bodies g u hu c hc

theorem lockFor_ne_formula {name : String} {v : Value} {lock : Option Kind}
    (h : w.lockFor name v = .ok lock) : w.bindings.get? name ≠ some .formula := by
  intro hb
  simp [lockFor, hb] at h

theorem Wellformed.name_ne (h : Wellformed w) {f : NamedFormula} (hf : f ∈ w.formulas)
    {name : String} (hb : w.bindings.get? name ≠ some .formula) : name ≠ f.name := by
  rintro rfl
  exact hb (h.bound f hf)

theorem Wellformed.not_mem_names (h : Wellformed w) {name : String}
    (hb : w.bindings.get? name ≠ some .formula) : name ∉ w.formulas.map (·.name) := by
  intro hm
  obtain ⟨f, hf, hn⟩ := List.mem_map.mp hm
  exact h.name_ne hf hb hn.symm

theorem Wellformed.assigned (h : Wellformed w) {name : String} {v : Value} {lock : Option Kind}
    (hl : w.lockFor name v = .ok lock) : Wellformed (w.assigned name lock v) where
  hostless := h.hostless
  bound f hf := (Fields.get?_insert_ne (h.name_ne hf (lockFor_ne_formula hl))).trans (h.bound f hf)
  distinct := h.distinct
  bodies := h.bodies

theorem Wellformed.update (h : Wellformed w) {name : String} {v : Value} {c : Changed σ}
    (hc : (w.update name v world).1 = .ok c) : Wellformed c.workbook := by
  obtain ⟨-, lock, hl, rfl⟩ := update_ok hc
  exact (h.assigned hl).of_sameTables sameTables_recalculate

theorem Wellformed.define (h : Wellformed w) {name source : String} {c : Changed σ}
    (hc : (w.define name source world).1 = .ok c) : Wellformed c.workbook := by
  obtain ⟨-, hn, e, v, -, -, rfl⟩ := define_ok hc
  have hne : w.bindings.get? name ≠ some .formula := by simp [hn]
  refine ⟨h.hostless, ?_, ?_, h.bodies⟩
  · intro f hf
    obtain hf | hf := List.mem_append.mp hf
    · exact (Fields.get?_insert_ne (h.name_ne hf hne)).trans (h.bound f hf)
    · rw [List.mem_singleton] at hf
      subst hf
      exact Fields.get?_insert_self
  · rw [List.map_append]
    refine List.nodup_append.mpr ⟨h.distinct, by simp, ?_⟩
    intro m hm n hn hmn
    rw [List.map_cons, List.map_nil, List.mem_singleton] at hn
    rw [hmn, hn] at hm
    exact h.not_mem_names hne hm

/-- The functions that the first workbook knows are the same in the second. -/
def Keeps (w w' : Workbook σ) : Prop :=
  ∀ c, (w.arity? c).isSome → w'.functions.get? c = w.functions.get? c

theorem keeps_of_eq (h : w'.functions = w.functions) : Keeps w w' := fun c _ => by rw [h]

theorem Keeps.arity? (h : Keeps w w') (hh : w'.hosts = w.hosts) {c : String}
    (hc : (w.arity? c).isSome) : w'.arity? c = w.arity? c := by
  rw [Workbook.arity?, Workbook.arity?, h c hc, hh]

theorem Keeps.trans (h : Keeps s w) (h' : Keeps w w') (hh : w.hosts = s.hosts) : Keeps s w' := by
  intro c hc
  have hw : (w.arity? c).isSome := by rwa [h.arity? hh hc]
  exact (h' c hw).trans (h c hc)

section

variable {source : String} (hw : w.defineFunctions source = .ok w')
include hw

theorem defineFunctions_hosts : w'.hosts = w.hosts := by
  obtain ⟨batch, -, -, rfl⟩ := defineFunctions_ok hw
  rfl

theorem defineFunctions_formulas : w'.formulas = w.formulas ∧ w'.bindings = w.bindings ∧
    w'.values = w.values := by
  obtain ⟨batch, -, -, rfl⟩ := defineFunctions_ok hw
  exact ⟨rfl, rfl, rfl⟩

theorem keeps_defineFunctions : Keeps w w' := by
  obtain ⟨batch, -, he, rfl⟩ := defineFunctions_ok hw
  intro c hc
  obtain ⟨u, hu, hn, -⟩ | ⟨-, hg⟩ := get?_addFunctions (w := w) (batch.filterMap resolve?) c
  · obtain ⟨d, hd, hdn, -⟩ := mem_filterMap_resolve? hu
    obtain ⟨ha, -, -⟩ := resolve?_of_definitionErrors (he d hd)
    rw [hdn, hn] at ha
    simp [ha] at hc
  · exact hg

/-- What the body of a new function calls takes as many arguments as the check has assumed: it is
new as well, or was known before. -/
theorem arity?_of_bodyScope {batch : List FunctionDef}
    (he : ∀ d ∈ batch, definitionErrors w batch d = [])
    (hb : w' = w.addFunctions (batch.filterMap resolve?)) {d : FunctionDef} {c : String}
    {a : Arity} (hc : (bodyScope w batch d).arity? c = some a) : w'.arity? c = some a := by
  cases hf : batch.find? (·.name == c) with
  | some d' =>
    have ha : Arity.exactly d'.params.length = a := by
      simpa only [bodyScope, hf, Option.some.injEq] using hc
    have hd' : d' ∈ batch := List.mem_of_find?_eq_some hf
    have hn : d'.name = c := by simpa using List.find?_some hf
    obtain ⟨-, -, u, hu, hun, -⟩ := resolve?_of_definitionErrors (he d' hd')
    have hm : u ∈ batch.filterMap resolve? := List.mem_filterMap.mpr ⟨d', hd', hu⟩
    obtain ⟨u', hm', hun', hg⟩ | ⟨hne, -⟩ :=
      get?_addFunctions (w := w) (batch.filterMap resolve?) c
    · obtain ⟨d₂, hd₂, hu₂⟩ := List.mem_filterMap.mp hm'
      obtain ⟨hn₂, -, hp₂⟩ := resolve?_eq hu₂
      obtain rfl : d₂ = d' := eq_of_definitionErrors (he d' hd') hd' hd₂
        (hn₂.symm.trans (hun'.trans hn.symm))
      have hl : u'.params.length = d₂.params.length := by
        simpa using congrArg List.length hp₂
      rw [hb, arity?, hg, ← ha, ← hl]
      rfl
    · exact absurd (hun.trans hn) (hne u hm)
  | none =>
    have hk : w.arity? c = some a := by simpa only [bodyScope, hf] using hc
    have hs : (w.arity? c).isSome := by simp [hk]
    rw [(keeps_defineFunctions hw).arity? (defineFunctions_hosts hw) hs, hk]

theorem Wellformed.defineFunctions (h : Wellformed w) : Wellformed w' := by
  obtain ⟨hf, hb, -⟩ := defineFunctions_formulas hw
  refine ⟨(defineFunctions_hosts hw).trans h.hostless, by rw [hf, hb]; exact h.bound,
    by rw [hf]; exact h.distinct, ?_⟩
  obtain ⟨batch, -, he, rfl⟩ := defineFunctions_ok hw
  intro g u hu c hc
  obtain ⟨u', hm, -, hg⟩ | ⟨-, hg⟩ := get?_addFunctions (w := w) (batch.filterMap resolve?) g
  · rw [hg, Option.some.injEq] at hu
    subst hu
    obtain ⟨d, hd, -, hbody⟩ := mem_filterMap_resolve? hm
    obtain ⟨-, hcheck, -⟩ := resolve?_of_definitionErrors (he d hd)
    obtain ⟨a, ha⟩ := Option.isSome_iff_exists.mp (arity?_of_check hcheck c (hbody ▸ hc))
    rw [arity?_of_bodyScope hw he rfl ha]
    rfl
  · rw [hg] at hu
    have hk := h.bodies g u hu c hc
    rwa [(keeps_defineFunctions hw).arity? (defineFunctions_hosts hw) hk]

end

theorem Wellformed.step (h : Wellformed w) {r : Request σ} (hs : Step w world r w') :
    Wellformed w' := by
  cases hs with
  | update hc => exact h.update hc
  | define hc => exact h.define hc
  | functions hw => exact h.defineFunctions hw
  | same => exact h

theorem formulas_prefix_step {r : Request σ} (hs : Step w world r w') :
    w.formulas <+: w'.formulas := by
  cases hs with
  | update hc =>
    obtain ⟨-, lock, -, rfl⟩ := update_ok hc
    rw [sameTables_recalculate.formulas]
    exact List.prefix_rfl
  | define hc =>
    obtain ⟨-, -, e, v, -, -, rfl⟩ := define_ok hc
    exact List.prefix_append _ _
  | functions hw =>
    exact (defineFunctions_formulas hw).1 ▸ List.prefix_rfl
  | same => exact List.prefix_rfl

theorem formulas_prefix_run (w : Workbook σ) (world : σ) (rs : List (Request σ)) :
    w.formulas <+: (w.run world rs).1.formulas := by
  induction rs generalizing w world with
  | nil => exact List.prefix_rfl
  | cons r rs ih => exact (formulas_prefix_step (step_perform w world r)).trans (ih _ _)

theorem formulas_prefix_run_append (w : Workbook σ) (world : σ) (rs ss : List (Request σ)) :
    (w.run world rs).1.formulas <+: (w.run world (rs ++ ss)).1.formulas := by
  rw [run_append]
  exact formulas_prefix_run _ _ _

theorem Wellformed.run (h : Wellformed w) (rs : List (Request σ)) :
    Wellformed (w.run world rs).1 := by
  induction rs generalizing w world with
  | nil => exact h
  | cons r rs ih => exact ih (h.step (step_perform w world r))

end FormulaShell.Workbook
