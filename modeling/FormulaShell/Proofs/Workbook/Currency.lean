import FormulaShell.Proofs.Workbook.Dependency
import FormulaShell.Proofs.Workbook.Wellformed

namespace FormulaShell.Workbook

open FormulaShell.Formula

variable {σ : Type} {w w' s : Workbook σ} {world : σ} {f : NamedFormula}

/-- The stored value is the value of the expression, in whatever world it is evaluated. -/
def Current (w : Workbook σ) (f : NamedFormula) : Prop :=
  ∃ v, w.valueOf? f.name = some v ∧
    ∀ world, (Formula.evaluate (w.environment .empty .never) f.expr world).1 = .ok v

/-- The dependencies of the formula are all that it can read, and it calls known functions only. -/
def Covered (w : Workbook σ) (f : NamedFormula) : Prop :=
  (∀ n ∈ f.expr.names, n ∈ f.dependencies) ∧ ∃ S : Set String, (∀ c ∈ f.expr.calls, c ∈ S) ∧
    Closed w.functions {n | n ∈ f.dependencies} S ∧ ∀ c ∈ S, (w.arity? c).isSome

theorem Covered.of_keeps (h : Covered s f) (hk : Keeps s w) (hh : w.hosts = s.hosts) :
    Covered w f := by
  obtain ⟨hn, S, hc, hS, ha⟩ := h
  refine ⟨hn, S, hc, ⟨?_, ?_⟩, ?_⟩
  · intro g hg u hu
    exact hS.calls g hg u ((hk g (ha g hg)).symm.trans hu)
  · intro g hg u hu
    exact hS.names g hg u ((hk g (ha g hg)).symm.trans hu)
  · intro g hg
    rw [hk.arity? hh (ha g hg)]
    exact ha g hg

theorem Wellformed.covered (h : Wellformed w) {name source : String} {e : Expr}
    (hp : w.prepare source .empty = .ok e) : Covered w ⟨name, e, w.dependencies e⟩ := by
  obtain ⟨hn, S, hc, hS⟩ := w.covers_dependencies e
  have hk : ∀ c ∈ e.calls, (w.arity? c).isSome := arity?_of_check (prepare_ok hp).2
  refine ⟨hn, {c | c ∈ S ∧ (w.arity? c).isSome}, fun c hm => ⟨hc c hm, hk c hm⟩, ⟨?_, ?_⟩,
    fun c hm => hm.2⟩
  · intro g hg u hu c hm
    exact ⟨hS.calls g hg.1 u hu c hm, h.bodies g u hu c hm⟩
  · intro g hg u hu n hm
    exact hS.names g hg.1 u hu n hm

theorem Covered.evaluate_congr (hc : Covered s f) (hs : s.hosts = .empty) (hw : w.hosts = .empty)
    (hk : Keeps s w) (hv : ∀ n ∈ f.dependencies, s.values.get? n = w.values.get? n) :
    ∃ v, ∀ world, (Formula.evaluate (s.environment .empty .never) f.expr world).1 = .ok v ∧
      (Formula.evaluate (w.environment .empty .never) f.expr world).1 = .ok v := by
  obtain ⟨hn, S, hcalls, hS, ha⟩ := hc
  have h : Alike {n | n ∈ f.dependencies} S (s.environment .empty .never)
      (w.environment .empty .never) := by
    refine ⟨hs, hw, rfl, ?_, fun g hg => (hk g (ha g hg)).symm, hS⟩
    intro n hn
    have hg : s.values.get? n = w.values.get? n := hv n hn
    simp only [lookup, List.findSome?_nil, environment, hg]
  exact h.evaluate hn hcalls rfl rfl

theorem Covered.exists_value (hc : Covered w f) (hw : w.hosts = .empty) :
    ∃ v, ∀ world, (Formula.evaluate (w.environment .empty .never) f.expr world).1 = .ok v := by
  obtain ⟨v, hv⟩ := hc.evaluate_congr hw hw (keeps_of_eq rfl) fun _ _ => rfl
  exact ⟨v, fun world => (hv world).1⟩

/-- The formula was evaluated last in `s`, and since then only names that formulas define no
earlier than this one have changed. -/
structure EvaluatedIn (s w : Workbook σ) (f : NamedFormula) : Prop where
  hosts : w.hosts = s.hosts
  keeps : Keeps s w
  covered : Covered s f
  stored : ∃ v, w.valueOf? f.name = some v ∧
    ∀ world, (Formula.evaluate (s.environment .empty .never) f.expr world).1 = .ok v
  values : ∀ n ∈ f.dependencies, n ∉ namesFrom f.name w.formulas →
    s.values.get? n = w.values.get? n

theorem EvaluatedIn.current_iff (h : EvaluatedIn s w f) :
    w.Current f ↔ ∀ world, (Formula.evaluate (w.environment .empty .never) f.expr world).1 =
      (Formula.evaluate (s.environment .empty .never) f.expr world).1 := by
  obtain ⟨v, hv, hs⟩ := h.stored
  constructor
  · rintro ⟨u, hu, hw⟩ world
    have huv : u = v := Option.some.inj (hu.symm.trans hv)
    rw [hw, hs, huv]
  · exact fun hw => ⟨v, hv, fun world => (hw world).trans (hs world)⟩

theorem EvaluatedIn.current (h : EvaluatedIn s w f) (hw : w.hosts = .empty)
    (ho : ∀ n ∈ f.dependencies, n ∉ namesFrom f.name w.formulas) : w.Current f := by
  have hv : ∀ n ∈ f.dependencies, s.values.get? n = w.values.get? n :=
    fun n hn => h.values n hn (ho n hn)
  obtain ⟨v, hsw⟩ := h.covered.evaluate_congr (h.hosts.symm.trans hw) hw h.keeps hv
  exact h.current_iff.mpr fun world => (hsw world).2.trans (hsw world).1.symm

section

variable {name : String} {c : Changed σ}

theorem EvaluatedIn.update_of_no_turn (h : EvaluatedIn s w f) (hwf : Wellformed w)
    (hf : f ∈ w.formulas) {v : Value} {lock : Option Kind} (hl : w.lockFor name v = .ok lock)
    (hturn : turn f.name [name] (w.assigned name lock v) world w.formulas = none) :
    EvaluatedIn s (recalculate [name] (w.assigned name lock v) world w.formulas).1.workbook f := by
  have ht : SameTables (w.assigned name lock v)
      (recalculate [name] (w.assigned name lock v) world w.formulas).1.workbook :=
    sameTables_recalculate
  obtain ⟨hv, hr⟩ := recalculate_of_no_turn hf hwf.distinct hturn
  refine ⟨ht.hosts.trans h.hosts, ?_, h.covered, ?_, ?_⟩
  · intro c hc
    rw [ht.functions]
    exact h.keeps c hc
  · obtain ⟨u, hu, hs⟩ := h.stored
    refine ⟨u, ?_, hs⟩
    have hne := hwf.name_ne hf (lockFor_ne_formula hl)
    exact hv.trans ((Fields.get?_insert_ne hne).trans hu)
  · intro n hn hlate
    rw [ht.formulas] at hlate
    obtain ⟨hc, hr⟩ := hr n hn hlate
    rw [List.mem_singleton] at hc
    exact (h.values n hn hlate).trans (hr.trans (Fields.get?_insert_ne (Ne.symm hc))).symm

theorem EvaluatedIn.update_of_turn (h : EvaluatedIn s w f) (hwf : Wellformed w)
    (hf : f ∈ w.formulas) {v : Value} {lock : Option Kind} {s' : Workbook σ}
    (hturn : turn f.name [name] (w.assigned name lock v) world w.formulas = some s') :
    EvaluatedIn s' (recalculate [name] (w.assigned name lock v) world w.formulas).1.workbook f := by
  have ht : SameTables (w.assigned name lock v)
      (recalculate [name] (w.assigned name lock v) world w.formulas).1.workbook :=
    sameTables_recalculate
  obtain ⟨hs, ⟨world', hv⟩, hr⟩ := recalculate_of_turn hf hwf.distinct hturn
  have hfun : s'.functions = w.functions := hs.functions
  have hcov : Covered s' f := by
    refine h.covered.of_keeps ?_ (hs.hosts.trans h.hosts)
    intro c hc
    rw [hfun]
    exact h.keeps c hc
  obtain ⟨u, hu⟩ := hcov.exists_value (hs.hosts.trans hwf.hostless)
  refine ⟨ht.hosts.trans hs.hosts.symm, ?_, hcov, ⟨u, ?_, hu⟩, ?_⟩
  · exact keeps_of_eq (ht.functions.trans hs.functions.symm)
  · refine hv.trans ?_
    rw [settle, hu]
    rfl
  · intro n _ hlate
    rw [ht.formulas] at hlate
    exact hr n hlate

theorem EvaluatedIn.update (h : EvaluatedIn s w f) (hwf : Wellformed w) (hf : f ∈ w.formulas)
    {v : Value} {lock : Option Kind} (hl : w.lockFor name v = .ok lock) :
    EvaluatedIn ((turn f.name [name] (w.assigned name lock v) world w.formulas).getD s)
      (recalculate [name] (w.assigned name lock v) world w.formulas).1.workbook f := by
  cases hturn : turn f.name [name] (w.assigned name lock v) world w.formulas with
  | none => exact h.update_of_no_turn hwf hf hl hturn
  | some s' => exact h.update_of_turn hwf hf hturn

theorem namesFrom_append {fs gs : List NamedFormula} (h : name ∈ fs.map (·.name)) :
    namesFrom name (fs ++ gs) = namesFrom name fs ++ gs.map (·.name) := by
  induction fs with
  | nil => simp at h
  | cons g fs ih =>
    by_cases hg : g.name = name
    · subst hg
      rw [List.cons_append, namesFrom_self, namesFrom_self, List.map_append, List.cons_append]
    · have hm : name ∈ fs.map (·.name) :=
        (List.mem_cons.mp h).resolve_left (Ne.symm hg)
      rw [List.cons_append, namesFrom_cons hg, namesFrom_cons hg, ih hm]

theorem namesFrom_append_new {fs : List NamedFormula} (h : f.name ∉ fs.map (·.name)) :
    namesFrom f.name (fs ++ [f]) = [f.name] := by
  induction fs with
  | nil => simp [namesFrom]
  | cons g fs ih =>
    rw [List.map_cons, List.mem_cons, not_or] at h
    rw [List.cons_append, namesFrom_cons (Ne.symm h.1), ih h.2]

theorem EvaluatedIn.define (h : EvaluatedIn s w f) (hwf : Wellformed w) (hf : f ∈ w.formulas)
    {source : String} (hc : (w.define name source world).1 = .ok c) :
    EvaluatedIn s c.workbook f := by
  obtain ⟨-, hn, e, v, -, -, rfl⟩ := define_ok hc
  have hne : name ≠ f.name := hwf.name_ne hf (by simp [hn])
  refine ⟨h.hosts, h.keeps, h.covered, ?_, ?_⟩
  · obtain ⟨u, hu, hs⟩ := h.stored
    exact ⟨u, (Fields.get?_insert_ne hne).trans hu, hs⟩
  · intro n hm hlate
    rw [namesFrom_append (List.mem_map_of_mem hf), List.mem_append, not_or] at hlate
    have hnn : name ≠ n := by
      rintro rfl
      exact hlate.2 (by simp)
    exact (h.values n hm hlate.1).trans (Fields.get?_insert_ne hnn).symm

theorem evaluatedIn_of_define (hwf : Wellformed w) {source : String}
    (hc : (w.define name source world).1 = .ok c) (hf : f ∈ c.workbook.formulas)
    (hnew : f.name = name) : EvaluatedIn w c.workbook f := by
  obtain ⟨-, hn, e, v, hp, hs, rfl⟩ := define_ok hc
  have hold : f ∉ w.formulas := fun hm => hwf.name_ne hm (by simp [hn]) hnew.symm
  have hfe : f = ⟨name, e, w.dependencies e⟩ :=
    List.mem_singleton.mp ((List.mem_append.mp hf).resolve_left hold)
  subst hfe
  have hcov : Covered w ⟨name, e, w.dependencies e⟩ := hwf.covered hp
  obtain ⟨u, hu⟩ := hcov.exists_value hwf.hostless
  have huv : u = v := Except.ok.inj ((hu world).symm.trans hs)
  refine ⟨rfl, keeps_of_eq rfl, hcov, ⟨v, Fields.get?_insert_self, huv ▸ hu⟩, ?_⟩
  intro n _ hlate
  have hname : name ∉ w.formulas.map (·.name) := hwf.not_mem_names (by simp [hn])
  rw [namesFrom_append_new (f := ⟨name, e, w.dependencies e⟩) hname, List.mem_singleton] at hlate
  exact (Fields.get?_insert_ne (Ne.symm hlate)).symm

theorem EvaluatedIn.defineFunctions (h : EvaluatedIn s w f) {source : String}
    (hw : w.defineFunctions source = .ok w') : EvaluatedIn s w' f := by
  obtain ⟨hf, -, hv⟩ := defineFunctions_formulas hw
  refine ⟨(defineFunctions_hosts hw).trans h.hosts,
    h.keeps.trans (keeps_defineFunctions hw) h.hosts, h.covered, ?_, ?_⟩
  · rw [valueOf?, hv]
    exact h.stored
  · rw [hf, hv]
    exact h.values

end

/-- The workbooks in which formulas were evaluated last, after one more request. -/
def seenAfter (w : Workbook σ) (world : σ) (seen : String → Workbook σ) :
    Request σ → String → Workbook σ
  | .update name v =>
    match w.update name v world, w.lockFor name v with
    | (.ok _, _), .ok lock =>
      fun n => (turn n [name] (w.assigned name lock v) world w.formulas).getD (seen n)
    | _, _ => seen
  | .define name source =>
    match w.define name source world with
    | (.ok _, _) => fun n => if n = name then w else seen n
    | (.error _, _) => seen
  | .functions _ | .evaluate .. => seen

def seenAfterRun (w : Workbook σ) (world : σ) (seen : String → Workbook σ) :
    List (Request σ) → String → Workbook σ
  | [] => seen
  | r :: rest =>
    seenAfterRun (w.perform world r).1 (w.perform world r).2 (w.seenAfter world seen r) rest

/-- The workbook in which a run from nothing has evaluated a formula last. -/
def lastSeen (world : σ) (rs : List (Request σ)) (name : String) : Workbook σ :=
  seenAfterRun .empty world (fun _ => .empty) rs name

variable {seen : String → Workbook σ}

theorem evaluatedIn_perform (hwf : Wellformed w)
    (h : ∀ f ∈ w.formulas, EvaluatedIn (seen f.name) w f) (r : Request σ) :
    ∀ f ∈ (w.perform world r).1.formulas,
      EvaluatedIn (w.seenAfter world seen r f.name) (w.perform world r).1 f := by
  cases r with
  | update name v =>
    rcases hc : w.update name v world with ⟨e | c, world'⟩
    · simpa only [perform, seenAfter, hc] using h
    · obtain ⟨-, lock, hl, rfl⟩ := update_ok (congrArg Prod.fst hc)
      simp only [perform, seenAfter, hc, hl]
      intro f hf
      rw [sameTables_recalculate.formulas] at hf
      exact (h f hf).update hwf hf hl
  | define name source =>
    rcases hc : w.define name source world with ⟨e | c, world'⟩
    · simpa only [perform, seenAfter, hc] using h
    · have hok : (w.define name source world).1 = .ok c := by rw [hc]
      simp only [perform, seenAfter, hc]
      intro f hf
      by_cases hn : f.name = name
      · rw [if_pos hn]
        exact evaluatedIn_of_define hwf hok hf hn
      · rw [if_neg hn]
        obtain ⟨-, -, e, v, -, -, rfl⟩ := define_ok hok
        have hold : f ∈ w.formulas := by
          refine (List.mem_append.mp hf).resolve_right fun hm => hn ?_
          rw [List.mem_singleton.mp hm]
        exact (h f hold).define hwf hold hok
  | functions source =>
    cases hc : w.defineFunctions source with
    | error es => simpa only [perform, seenAfter, hc] using h
    | ok w' =>
      simp only [perform, seenAfter, hc]
      intro f hf
      rw [(defineFunctions_formulas hc).1] at hf
      exact (h f hf).defineFunctions hc
  | evaluate source bindings poll => exact h

theorem evaluatedIn_run (hwf : Wellformed w)
    (h : ∀ f ∈ w.formulas, EvaluatedIn (seen f.name) w f) (rs : List (Request σ)) :
    ∀ f ∈ (w.run world rs).1.formulas,
      EvaluatedIn (seenAfterRun w world seen rs f.name) (w.run world rs).1 f := by
  induction rs generalizing w world seen with
  | nil => exact h
  | cons r rs ih => exact ih (hwf.step (step_perform w world r)) (evaluatedIn_perform hwf h r)

theorem evaluatedIn_lastSeen (world : σ) (rs : List (Request σ)) :
    ∀ f ∈ (run .empty world rs).1.formulas,
      EvaluatedIn (lastSeen world rs f.name) (run .empty world rs).1 f :=
  evaluatedIn_run wellformed_empty (by simp [empty]) rs

end FormulaShell.Workbook
