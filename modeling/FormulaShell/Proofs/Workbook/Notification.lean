import FormulaShell.Proofs.Workbook.Consistency
import Mathlib.Data.List.Nodup
import Mathlib.Logic.Relation

namespace FormulaShell.Workbook

open FormulaShell.Formula

variable {σ : Type} {w : Workbook σ} {world : σ} {f g : NamedFormula} {fs : List NamedFormula}
  {dirty : List String} {x : String}

/-- The formula of the first name depends on the second name. -/
def DependsOn (w : Workbook σ) (name other : String) : Prop :=
  ∃ f ∈ w.formulas, f.name = name ∧ other ∈ f.dependencies

/-- The formula of the first name depends on the second name, directly or through others. -/
def Follows (w : Workbook σ) : String → String → Prop := Relation.TransGen w.DependsOn

theorem Follows.mem_names {n m : String} (h : w.Follows n m) :
    n ∈ w.formulas.map (·.name) := by
  obtain ⟨b, ⟨f, hf, rfl, -⟩, -⟩ := Relation.TransGen.head'_iff.mp h
  exact List.mem_map_of_mem hf

def touched (dirty : List String) : List NamedFormula → List NamedFormula
  | [] => []
  | f :: rest =>
    if f.dependencies.any dirty.contains then f :: touched (f.name :: dirty) rest
    else touched dirty rest

theorem touched_sublist : (touched dirty fs).Sublist fs := by
  induction fs generalizing dirty with
  | nil => exact .slnil
  | cons f fs ih =>
    rw [touched]
    split
    · exact ih.cons_cons f
    · exact ih.cons f

def refreshAll (w : Workbook σ) (world : σ) : List NamedFormula → Changed σ × σ
  | [] => (⟨w, []⟩, world)
  | f :: rest =>
    let (r, world) := w.settle f.expr world
    let v := settledValue r
    let (c, world) := refreshAll (w.setValue f.name v) world rest
    ({ c with events := ⟨f.name, v⟩ :: c.events }, world)

theorem recalculate_eq_refreshAll :
    recalculate dirty w world fs = refreshAll w world (touched dirty fs) := by
  induction fs generalizing dirty w world with
  | nil => rfl
  | cons f fs ih =>
    by_cases h : f.dependencies.any dirty.contains
    · simp only [recalculate, if_pos h, touched, refreshAll, ih]
    · simp only [recalculate, if_neg h, touched, ih]

def noted (values : Fields Value) (events : List Recalculation) : Fields Value :=
  events.foldl (fun vs e => vs.insert e.name e.value) values

theorem refreshAll_workbook : (refreshAll w world fs).1.workbook =
    { w with values := noted w.values (refreshAll w world fs).1.events } := by
  induction fs generalizing w world with
  | nil => rfl
  | cons f fs ih => exact ih

theorem refreshAll_names :
    (refreshAll w world fs).1.events.map (·.name) = fs.map (·.name) := by
  induction fs generalizing w world with
  | nil => rfl
  | cons f fs ih => exact congrArg (f.name :: ·) ih

/-- Each formula is evaluated with the values that the events before its own have left. -/
theorem refreshAll_evaluated {before after : List Recalculation} {e : Recalculation}
    (h : (refreshAll w world fs).1.events = before ++ e :: after) :
    ∃ us f vs, fs = us ++ f :: vs ∧ us.map (·.name) = before.map (·.name) ∧ f.name = e.name ∧
      ∃ world', e.value =
        settledValue (settle { w with values := noted w.values before } f.expr world').1 := by
  induction fs generalizing w world before with
  | nil => simp [refreshAll] at h
  | cons f fs ih =>
    cases before with
    | nil =>
      obtain ⟨rfl, -⟩ := List.cons.inj h
      exact ⟨[], f, fs, rfl, rfl, rfl, world, rfl⟩
    | cons b before =>
      obtain ⟨rfl, hrest⟩ := List.cons.inj h
      obtain ⟨us, g, vs, rfl, hus, hg, world', hv⟩ := ih hrest
      exact ⟨f :: us, g, vs, rfl, congrArg (f.name :: ·) hus, hg, world', hv⟩

theorem get?_noted {values : Fields Value} {events : List Recalculation} {n : String}
    (h : n ∉ events.map (·.name)) : (noted values events).get? n = values.get? n := by
  induction events generalizing values with
  | nil => rfl
  | cons e events ih =>
    rw [List.map_cons, List.mem_cons, not_or] at h
    exact (ih h.2).trans (Fields.get?_insert_ne (Ne.symm h.1))

theorem get?_noted_of_mem {values : Fields Value} {events : List Recalculation}
    (hd : (events.map (·.name)).Nodup) {e : Recalculation} (he : e ∈ events) :
    (noted values events).get? e.name = some e.value := by
  induction events generalizing values with
  | nil => simp at he
  | cons d events ih =>
    rw [List.map_cons, List.nodup_cons] at hd
    obtain rfl | he := List.mem_cons.mp he
    · exact (get?_noted hd.1).trans Fields.get?_insert_self
    · exact ih hd.2 he

theorem mem_namesFrom_self {n : String} (h : n ∈ fs.map (·.name)) : n ∈ namesFrom n fs := by
  induction fs with
  | nil => simp at h
  | cons g fs ih =>
    by_cases hg : g.name = n
    · subst hg
      rw [namesFrom_self]
      exact List.mem_cons_self
    · rw [namesFrom_cons hg]
      exact ih ((List.mem_cons.mp h).resolve_left (Ne.symm hg))

theorem namesFrom_subset {a b : String} (hb : b ∈ fs.map (·.name)) (h : b ∉ namesFrom a fs) :
    ∀ n ∈ namesFrom a fs, n ∈ namesFrom b fs := by
  induction fs with
  | nil => simp at hb
  | cons g fs ih =>
    by_cases ha : g.name = a
    · subst ha
      rw [namesFrom_self] at h
      exact absurd hb h
    · rw [namesFrom_cons ha] at h ⊢
      by_cases hgb : g.name = b
      · subst hgb
        rw [namesFrom_self]
        intro n hn
        exact List.mem_cons_of_mem _ (((List.dropWhile_sublist _).map _).subset hn)
      · rw [namesFrom_cons hgb]
        exact ih ((List.mem_cons.mp hb).resolve_left (Ne.symm hgb)) h

theorem pairwise_namesFrom (hd : (fs.map (·.name)).Nodup) :
    fs.Pairwise fun f g => g.name ∈ namesFrom f.name fs := by
  induction fs with
  | nil => exact .nil
  | cons h fs ih =>
    rw [List.map_cons, List.nodup_cons] at hd
    refine .cons (fun g hg => ?_) ((ih hd.2).imp_of_mem fun {f g} hf _ hfg => ?_)
    · rw [namesFrom_self]
      exact List.mem_cons_of_mem _ (List.mem_map_of_mem hg)
    · have hne : h.name ≠ f.name := fun he => hd.1 (he ▸ List.mem_map_of_mem hf)
      rwa [namesFrom_cons hne]

section

variable (ho : InOrder w)
include ho

theorem InOrder.not_mem_namesFrom {n m : String} (h : w.Follows n m) :
    m ∉ namesFrom n w.formulas := by
  unfold Follows at h
  induction h using Relation.TransGen.head_induction_on with
  | single h =>
    obtain ⟨f, hf, rfl, hm⟩ := h
    exact ho f hf _ hm
  | head h hbm ih =>
    obtain ⟨f, hf, rfl, hb⟩ := h
    have hname : _ ∈ w.formulas.map (·.name) := Follows.mem_names hbm
    exact fun hm => ih (namesFrom_subset hname (ho f hf _ hb) _ hm)

theorem InOrder.not_follows_self (n : String) : ¬ w.Follows n n := fun h =>
  ho.not_mem_namesFrom h (mem_namesFrom_self h.mem_names)

theorem InOrder.pairwise (hd : (w.formulas.map (·.name)).Nodup) :
    w.formulas.Pairwise fun f g => ¬ w.Follows f.name g.name :=
  (pairwise_namesFrom hd).imp fun hg h => ho.not_mem_namesFrom h hg

theorem InOrder.mem_before (hd : (w.formulas.map (·.name)).Nodup) {gs us vs : List NamedFormula}
    (hgs : gs.Sublist w.formulas) (hsplit : gs = us ++ f :: vs) {n : String}
    (hn : n ∈ gs.map (·.name)) (hfn : w.Follows f.name n) : n ∈ us.map (·.name) := by
  have hpair := (ho.pairwise hd).sublist hgs
  rw [hsplit, List.pairwise_append, List.pairwise_cons] at hpair
  rw [hsplit, List.map_append, List.map_cons, List.mem_append, List.mem_cons] at hn
  obtain hn | rfl | hn := hn
  · exact hn
  · exact absurd hfn (ho.not_follows_self _)
  · obtain ⟨g, hg, rfl⟩ := List.mem_map.mp hn
    exact absurd hfn (hpair.2.1.1 g hg)

/-- At the turn of a formula the changed names are the assigned one and those of earlier formulas
that follow it. -/
theorem InOrder.turn_iff (hd : (w.formulas.map (·.name)).Nodup) {past : List NamedFormula}
    (hw : w.formulas = past ++ g :: fs)
    (hdirty : ∀ n, n ∈ dirty ↔ n = x ∨ n ∈ past.map (·.name) ∧ w.Follows n x) :
    g.dependencies.any dirty.contains ↔ w.Follows g.name x := by
  have hg : g ∈ w.formulas := by simp [hw]
  constructor
  · intro h
    obtain ⟨n, hn, hc⟩ := List.any_eq_true.mp h
    have hstep : w.DependsOn g.name n := ⟨g, hg, rfl, hn⟩
    obtain rfl | ⟨-, hx⟩ := (hdirty n).mp (List.contains_iff_mem.mp hc)
    · exact .single hstep
    · exact .head hstep hx
  · intro h
    obtain ⟨n, ⟨f, hf, hfg, hn⟩, hx⟩ := Relation.TransGen.head'_iff.mp h
    obtain rfl : f = g := List.inj_on_of_nodup_map hd hf hg hfg
    refine List.any_eq_true.mpr ⟨n, hn, List.contains_iff_mem.mpr ((hdirty n).mpr ?_)⟩
    obtain hx | hx := Relation.reflTransGen_iff_eq_or_transGen.mp hx
    · exact .inl hx.symm
    · have hstep : w.Follows f.name n := .single ⟨f, hg, rfl, hn⟩
      exact .inr ⟨ho.mem_before hd (.refl _) hw (Follows.mem_names hx) hstep, hx⟩

theorem InOrder.mem_touched (hd : (w.formulas.map (·.name)).Nodup) {past : List NamedFormula}
    (hw : w.formulas = past ++ fs)
    (hdirty : ∀ n, n ∈ dirty ↔ n = x ∨ n ∈ past.map (·.name) ∧ w.Follows n x) :
    ∀ f ∈ fs, f ∈ touched dirty fs ↔ w.Follows f.name x := by
  induction fs generalizing past dirty with
  | nil => simp
  | cons g fs ih =>
    have hturn := ho.turn_iff hd hw hdirty
    have hw' : w.formulas = (past ++ [g]) ++ fs := by simp [hw]
    have hnew : g ∉ fs := by
      intro hm
      rw [hw, List.map_append, List.map_cons, List.nodup_append, List.nodup_cons] at hd
      exact hd.2.1.1 (List.mem_map_of_mem hm)
    intro f hf
    by_cases h : g.dependencies.any dirty.contains
    · have hg := hturn.mp h
      rw [touched, if_pos h, List.mem_cons]
      obtain rfl | hf := List.mem_cons.mp hf
      · simp [hg]
      · have hne : f ≠ g := fun he => hnew (he ▸ hf)
        rw [ih hw' (fun n => ?_) f hf, or_iff_right hne]
        rw [List.mem_cons, hdirty, List.map_append, List.mem_append]
        by_cases hn : n = g.name
        · simp [hn, hg]
        · simp [hn]
    · have hg : ¬ w.Follows g.name x := fun hx => h (hturn.mpr hx)
      rw [touched, if_neg h]
      obtain rfl | hf := List.mem_cons.mp hf
      · exact iff_of_false (fun hm => hnew (touched_sublist.subset hm)) hg
      · refine ih hw' (fun n => ?_) f hf
        rw [hdirty, List.map_append, List.mem_append]
        by_cases hn : n = g.name
        · subst hn
          simp [hg]
        · simp [hn]

end

/-- What an accepted assignment reports: one event for each formula that follows the name. -/
structure Notified (w : Workbook σ) (x : String) (v : Value) (c : Changed σ) : Prop where
  mem_iff : ∀ n, n ∈ c.events.map (·.name) ↔ w.Follows n x
  once : (c.events.map (·.name)).Nodup
  order : (c.events.map (·.name)).Sublist (w.formulas.map (·.name))
  stored : ∀ e ∈ c.events, c.workbook.valueOf? e.name = some e.value
  /-- A formula is evaluated with the values of the events before its own, among which are all of
  formulas that it depends on. -/
  evaluated : ∀ before e after, c.events = before ++ e :: after → ∃ f ∈ w.formulas,
    f.name = e.name ∧
      (∀ world, (Formula.evaluate
        ({ w with values := noted (w.values.insert x v) before }.environment .empty .never)
        f.expr world).1 = .ok e.value) ∧
      ∀ n, w.Follows f.name n → w.Follows n x → n ∈ before.map (·.name)
  others : ∀ n, n ≠ x → ¬ w.Follows n x → c.workbook.valueOf? n = w.valueOf? n

section

variable {v : Value} {lock : Option Kind} {gs : List NamedFormula} (ho : InOrder w)
  (hd : (w.formulas.map (·.name)).Nodup) (hgs : gs.Sublist w.formulas)
  (hmem : ∀ f ∈ w.formulas, f ∈ gs ↔ w.Follows f.name x)
include ho hd hgs hmem

omit ho hd in
theorem mem_names_iff_follows (n : String) : n ∈ gs.map (·.name) ↔ w.Follows n x := by
  constructor
  · intro hn
    obtain ⟨f, hf, rfl⟩ := List.mem_map.mp hn
    exact (hmem f (hgs.subset hf)).mp hf
  · intro hn
    obtain ⟨f, hf, rfl⟩ := List.mem_map.mp hn.mem_names
    exact List.mem_map_of_mem ((hmem f hf).mpr hn)

theorem notified_refreshAll (hh : w.hosts = .empty) (hcov : ∀ f ∈ w.formulas, Covered w f)
    (world : σ) : Notified w x v (refreshAll (w.assigned x lock v) world gs).1 := by
  have hnames : (refreshAll (w.assigned x lock v) world gs).1.events.map (·.name) =
      gs.map (·.name) := refreshAll_names
  have hwork := congrArg values
    (refreshAll_workbook : (refreshAll (w.assigned x lock v) world gs).1.workbook = _)
  have hiff := mem_names_iff_follows hgs hmem
  have honce := (hgs.map (·.name)).nodup hd
  rw [← hnames] at hiff honce
  refine ⟨hiff, honce, hnames ▸ hgs.map _, fun e he => ?_, fun before e after he => ?_,
    fun n hn hx => ?_⟩
  · rw [valueOf?, hwork]
    exact get?_noted_of_mem honce he
  · obtain ⟨us, f, vs, hsplit, hus, hf, world', hv⟩ := refreshAll_evaluated he
    have hfw : f ∈ w.formulas := hgs.subset (by simp [hsplit])
    have hbefore (n : String) (hfn : w.Follows f.name n) (hnx : w.Follows n x) :
        n ∈ before.map (·.name) :=
      hus ▸ ho.mem_before hd hgs hsplit ((mem_names_iff_follows hgs hmem n).mpr hnx) hfn
    refine ⟨f, hfw, hf, ?_, hbefore⟩
    have hcovered : Covered { w with values := noted (w.values.insert x v) before } f :=
      (hcov f hfw).of_keeps (keeps_of_eq rfl) rfl
    obtain ⟨u, hu⟩ := hcovered.exists_value hh
    have hvu : e.value = u := hv.trans (congrArg settledValue (hu world'))
    exact hvu ▸ hu
  · rw [valueOf?, hwork]
    refine (get?_noted fun hm => hx ((hiff n).mp hm)).trans ?_
    exact Fields.get?_insert_ne (Ne.symm hn)

end

/-- In every orderly run, an assignment reports the formulas that follow the assigned name, and a
definition reports its own formula with its value in the workbook before. -/
theorem events_of_orderly_run (world : σ) (rs : List (Request σ)) (h : orderly .empty world rs) :
    let w := (run .empty world rs).1
    (∀ x v world' c, (w.update x v world').1 = .ok c → Notified w x v c) ∧
      ∀ n source world' c, (w.define n source world').1 = .ok c →
        ∃ e value, w.prepare source .empty = .ok e ∧
          (∀ world, (Formula.evaluate (w.environment .empty .never) e world).1 = .ok value) ∧
          c.events = [⟨n, value⟩] ∧ c.workbook.valueOf? n = some value ∧
          ∀ m, m ≠ n → c.workbook.valueOf? m = w.valueOf? m := by
  intro w
  have hwf : Wellformed w := wellformed_empty.run rs
  have ho : InOrder w := InOrder.run (by simp [InOrder, empty]) wellformed_empty h
  constructor
  · intro x v world' c hc
    obtain ⟨-, lock, -, rfl⟩ := update_ok hc
    have hmem : ∀ f ∈ w.formulas, f ∈ touched [x] w.formulas ↔ w.Follows f.name x :=
      ho.mem_touched hwf.distinct (List.nil_append w.formulas).symm (by simp)
    rw [recalculate_eq_refreshAll]
    refine notified_refreshAll ho hwf.distinct touched_sublist hmem hwf.hostless ?_ world'
    intro f hf
    have hev := evaluatedIn_lastSeen world rs f hf
    exact hev.covered.of_keeps hev.keeps hev.hosts
  · intro n source world' c hc
    obtain ⟨-, -, e, value, hp, hs, rfl⟩ := define_ok hc
    have hcov : Covered w ⟨n, e, w.dependencies e⟩ := hwf.covered hp
    obtain ⟨u, hu⟩ := hcov.exists_value hwf.hostless
    obtain rfl : u = value := Except.ok.inj ((hu world').symm.trans hs)
    exact ⟨e, u, hp, hu, rfl, Fields.get?_insert_self,
      fun m hm => Fields.get?_insert_ne (Ne.symm hm)⟩

def tariffRun : List (Request Unit) :=
  [.update "rate" (.number 2.0), .update "days" (.number 3.0),
    .functions "Fee(n: Number): Number = n * rate", .define "Stay" "Fee(days)",
    .define "Total" "Stay + 1", .define "Nights" "days - 1", .define "Bill" "Nights & Total"]

theorem tariffRun_events : orderly .empty () tariffRun ∧
    (∃ c, ((run .empty () tariffRun).1.update "rate" (.number 10.0) ()).1 = .ok c ∧
      c.events.map (·.name) = ["Stay", "Total", "Bill"] ∧
      c.events.map (·.value) == [.number 30.0, .number 31.0, .text "231"] ∧
      Notified (run .empty () tariffRun).1 "rate" (.number 10.0) c) ∧
    ∃ c, ((run .empty () tariffRun).1.define "Tax" "Stay * 2" ()).1 = .ok c ∧
      ∃ value, c.events = [⟨"Tax", value⟩] ∧ value == .number 12.0 := by
  have ho : orderly .empty () tariffRun := by decide +kernel
  obtain ⟨hupdate, hdefine⟩ := events_of_orderly_run () tariffRun ho
  refine ⟨ho, ?_, ?_⟩
  · obtain ⟨c, hc⟩ := exists_ok_of_isOk
      (x := ((run .empty () tariffRun).1.update "rate" (.number 10.0) ()).1) (by decide +kernel)
    have hevents : ((run .empty () tariffRun).1.update "rate" (.number 10.0) ()).1.toOption.any
        fun c => c.events.map (·.name) == ["Stay", "Total", "Bill"] &&
          c.events.map (·.value) == [.number 30.0, .number 31.0, .text "231"] := by decide +kernel
    rw [hc] at hevents
    obtain ⟨hnames, hvalues⟩ := Bool.and_eq_true_iff.mp hevents
    exact ⟨c, hc, beq_iff_eq.mp hnames, hvalues, hupdate _ _ _ _ hc⟩
  · obtain ⟨c, hc⟩ := exists_ok_of_isOk
      (x := ((run .empty () tariffRun).1.define "Tax" "Stay * 2" ()).1) (by decide +kernel)
    have htax : ((run .empty () tariffRun).1.define "Tax" "Stay * 2" ()).1.toOption.any
        fun c => c.events.map (·.value) == [.number 12.0] := by decide +kernel
    obtain ⟨_, value, _, _, hevents, _⟩ := hdefine _ _ _ _ hc
    rw [hc] at htax
    simp only [Except.toOption, Option.any_some, hevents, List.map_cons, List.map_nil] at htax
    exact ⟨c, hc, value, hevents, by simpa using htax⟩

end FormulaShell.Workbook
