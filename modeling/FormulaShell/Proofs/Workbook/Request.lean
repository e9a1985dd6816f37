import FormulaShell.Proofs.Fields
import FormulaShell.Proofs.Formula.Expr
import FormulaShell.Workbook.Execution

namespace FormulaShell.Workbook

open FormulaShell.Formula FormulaShell.Script FormulaShell.Text

variable {σ : Type}

theorem exists_ok_of_isOk {ε α : Type} {x : Except ε α} (h : x.isOk) : ∃ a, x = .ok a := by
  cases x with
  | error e => cases h
  | ok a => exact ⟨a, rfl⟩

inductive Request (σ : Type) where
  | update (name : String) (value : Value)
  | define (name source : String)
  | functions (source : String)
  | evaluate (source : String) (bindings : Record) (poll : Poll σ)

/-- The workbook and the world after a request; the workbook is the same if the request fails. -/
def perform (w : Workbook σ) (world : σ) : Request σ → Workbook σ × σ
  | .update name v =>
    match w.update name v world with
    | (.ok c, world) => (c.workbook, world)
    | (.error _, world) => (w, world)
  | .define name source =>
    match w.define name source world with
    | (.ok c, world) => (c.workbook, world)
    | (.error _, world) => (w, world)
  | .functions source =>
    match w.defineFunctions source with
    | .ok changed => (changed, world)
    | .error _ => (w, world)
  | .evaluate source bindings poll => (w, (w.evaluate source bindings poll world).2)

/-- What a request leaves: an accepted one its result, any other one the workbook as it was. -/
inductive Step (w : Workbook σ) (world : σ) : Request σ → Workbook σ → Prop where
  | update {name : String} {v : Value} {c : Changed σ} (h : (w.update name v world).1 = .ok c) :
    Step w world (.update name v) c.workbook
  | define {name source : String} {c : Changed σ} (h : (w.define name source world).1 = .ok c) :
    Step w world (.define name source) c.workbook
  | functions {source : String} {w' : Workbook σ} (h : w.defineFunctions source = .ok w') :
    Step w world (.functions source) w'
  | same {r : Request σ} : Step w world r w

theorem step_perform (w : Workbook σ) (world : σ) (r : Request σ) :
    Step w world r (w.perform world r).1 := by
  cases r with
  | update name v =>
    rw [perform]
    rcases hc : w.update name v world with ⟨e | c, world'⟩
    · exact .same
    · exact .update (by rw [hc])
  | define name source =>
    rw [perform]
    rcases hc : w.define name source world with ⟨e | c, world'⟩
    · exact .same
    · exact .define (by rw [hc])
  | functions source =>
    rw [perform]
    cases hc : w.defineFunctions source with
    | error es => exact .same
    | ok w' => exact .functions hc
  | evaluate source bindings poll => exact .same

theorem perform_define {w : Workbook σ} {world : σ} {name source : String} {c : Changed σ}
    (h : (w.define name source world).1 = .ok c) :
    (w.perform world (.define name source)).1 = c.workbook := by
  rw [perform]
  rcases hd : w.define name source world with ⟨e | c', world'⟩
  · rw [hd] at h
    cases h
  · rw [hd] at h
    cases h
    rfl

/-- What a statement comes to: one accepted change, or nothing but an outcome. -/
inductive Executes (w : Workbook σ) : Executed σ → Prop where
  | update {world : σ} {name : String} {v : Value} {c : Changed σ}
      (h : (w.update name v world).1 = .ok c) :
      Executes w ⟨c.workbook, some (.updated name v), c.events⟩
  | define {world : σ} {name source : String} {c : Changed σ}
      (h : (w.define name source world).1 = .ok c) : Executes w ⟨c.workbook, none, c.events⟩
  | functions {source : String} {w' : Workbook σ} (h : w.defineFunctions source = .ok w') :
      Executes w ⟨w', none, []⟩
  | same (o : Option Outcome) : Executes w ⟨w, o, []⟩

theorem executes_execute (w : Workbook σ) (s : Statement) (poll : Poll σ) (world : σ) :
    Executes w (w.execute s poll world).1 := by
  cases s with
  | empty => exact .same none
  | assignment name expression =>
    rw [execute, assign]
    rcases w.resultOf expression poll world with ⟨m | v, world'⟩
    · exact .same _
    · rcases hu : w.update name v world' with ⟨e | c, _⟩
      · simp only [hu]
        exact .same _
      · simp only [hu]
        exact .update (congrArg Prod.fst hu)
  | namedFormula name formula =>
    rw [execute]
    rcases hd : w.define name formula world with ⟨e | c, _⟩
    · exact .same _
    · exact .define (congrArg Prod.fst hd)
  | functionDefinition source =>
    rw [execute]
    cases hd : w.defineFunctions source with
    | error es => exact .same _
    | ok w' => exact .functions hd
  | evaluation expression =>
    rw [execute]
    rcases w.resultOf expression poll world with ⟨m | v, _⟩
    · exact .same _
    · exact .same _

def run (w : Workbook σ) (world : σ) : List (Request σ) → Workbook σ × σ
  | [] => (w, world)
  | r :: rest => run (w.perform world r).1 (w.perform world r).2 rest

theorem run_append (w : Workbook σ) (world : σ) (rs ss : List (Request σ)) :
    w.run world (rs ++ ss) = (w.run world rs).1.run (w.run world rs).2 ss := by
  induction rs generalizing w world with
  | nil => rfl
  | cons r rs ih => exact ih _ _

section

variable {w : Workbook σ} {world : σ}

def assigned (w : Workbook σ) (name : String) (lock : Option Kind) (v : Value) : Workbook σ :=
  { w with bindings := w.bindings.insert name (.variable lock) }.setValue name v

theorem update_ok {name : String} {v : Value} {c : Changed σ}
    (h : (w.update name v world).1 = .ok c) :
    isName name ∧ ∃ lock, w.lockFor name v = .ok lock ∧
      c = (recalculate [name] (w.assigned name lock v) world w.formulas).1 := by
  by_cases hn : isName name
  · rw [update, if_pos hn] at h
    cases hl : w.lockFor name v with
    | error e =>
      rw [hl] at h
      cases h
    | ok lock =>
      rw [hl] at h
      cases h
      exact ⟨hn, lock, rfl, rfl⟩
  · rw [update, if_neg hn] at h
    cases h

theorem prepare_of_reads {source : String} {bindings : Record} {e : Expr}
    (hread : readFormula source = .ok e) (hcheck : check (w.scope bindings) true e = .ok ()) :
    w.prepare source bindings = .ok e := by
  rw [prepare, hread]
  change ((check (w.scope bindings) true e).mapError WorkbookError.unchecked >>= fun _ =>
    pure e) = Except.ok e
  rw [hcheck]
  rfl

theorem evaluate_of_reads {source : String} {bindings : Record} {e : Expr}
    (hread : readFormula source = .ok e) (hcheck : check (w.scope bindings) true e = .ok ())
    (poll : Poll σ) (world : σ) :
    w.evaluate source bindings poll world =
      ((Formula.evaluate (w.environment bindings poll) e world).1.mapError .interrupted,
        (Formula.evaluate (w.environment bindings poll) e world).2) := by
  rw [evaluate, prepare_of_reads hread hcheck]

theorem prepare_ok {source : String} {bindings : Record} {e : Expr}
    (h : w.prepare source bindings = .ok e) :
    readFormula source = .ok e ∧ check (w.scope bindings) true e = .ok () := by
  cases hr : readFormula source with
  | error x =>
    rw [prepare, hr] at h
    cases h
  | ok e' =>
    cases hc : check (w.scope bindings) true e' with
    | error x =>
      have hx : (check (w.scope bindings) true e').mapError WorkbookError.unchecked =
          .error (.unchecked x) := by rw [hc]; rfl
      rw [prepare, hr] at h
      change ((check (w.scope bindings) true e').mapError WorkbookError.unchecked >>= fun _ =>
        pure e') = Except.ok e at h
      rw [hx] at h
      cases h
    | ok u =>
      have hx : (check (w.scope bindings) true e').mapError WorkbookError.unchecked = .ok u := by
        rw [hc]; rfl
      rw [prepare, hr] at h
      change ((check (w.scope bindings) true e').mapError WorkbookError.unchecked >>= fun _ =>
        pure e') = Except.ok e at h
      rw [hx] at h
      cases h
      exact ⟨rfl, hc⟩

theorem define_ok {name source : String} {c : Changed σ}
    (h : (w.define name source world).1 = .ok c) :
    isName name ∧ w.bindings.get? name = none ∧
      ∃ e v, w.prepare source .empty = .ok e ∧ (w.settle e world).1 = .ok v ∧
        c = ⟨{ w with
          values := w.values.insert name v
          bindings := w.bindings.insert name .formula
          formulas := w.formulas ++ [⟨name, e, w.dependencies e⟩] }, [⟨name, v⟩]⟩ := by
  by_cases hn : isName name
  · by_cases hb : w.bindings.contains name
    · simp [define, hn, hb] at h
    · simp only [define, hn, hb, Bool.not_true, Bool.false_eq_true, if_false] at h
      refine ⟨hn, by simpa [Fields.contains] using hb, ?_⟩
      cases hp : w.prepare source .empty with
      | error x =>
        rw [hp] at h
        cases h
      | ok e =>
        rw [hp] at h
        rcases hs : w.settle e world with ⟨_ | v, world'⟩
        · simp only [hs] at h
          cases h
        · simp only [hs] at h
          cases h
          exact ⟨e, v, rfl, by rw [hs], rfl⟩
  · simp [define, hn] at h

theorem defineFunctions_ok {source : String} {w' : Workbook σ}
    (h : w.defineFunctions source = .ok w') :
    ∃ batch, readDefinitions source = .ok batch ∧
      (∀ d ∈ batch, definitionErrors w batch d = []) ∧
      w' = w.addFunctions (batch.filterMap resolve?) := by
  cases hr : readDefinitions source with
  | error x =>
    rw [defineFunctions, hr] at h
    cases h
  | ok batch =>
    rw [defineFunctions, hr] at h
    refine ⟨batch, rfl, ?_⟩
    cases he : batch.flatMap (definitionErrors w batch) with
    | nil =>
      simp only [addDefinitions, he] at h
      cases h
      exact ⟨List.flatMap_eq_nil_iff.mp he, rfl⟩
    | cons x xs =>
      simp only [addDefinitions, he] at h
      cases h

theorem ofTypeName?_of_typeErrors {t : TypeName} (h : typeErrors t = []) :
    ∃ k, Kind.ofTypeName? t.name = some k := by
  cases hk : Kind.ofTypeName? t.name with
  | none => simp [typeErrors, hk] at h
  | some k => exact ⟨k, rfl⟩

theorem mapM_of_paramErrors {function : String} {seen : List String} {params : List Param}
    (h : paramErrors function seen params = []) :
    ∃ ps, params.mapM (fun p => (Kind.ofTypeName? p.type.name).map fun k => (p.name, k)) =
      some ps := by
  induction params generalizing seen with
  | nil => exact ⟨[], rfl⟩
  | cons p params ih =>
    rw [paramErrors, List.append_eq_nil_iff, List.append_eq_nil_iff] at h
    obtain ⟨k, hk⟩ := ofTypeName?_of_typeErrors h.1.2
    obtain ⟨ps, hps⟩ := ih h.2
    exact ⟨(p.name, k) :: ps, by simp [List.mapM_cons, hk, hps]⟩

theorem resolve?_of_definitionErrors {batch : List FunctionDef} {d : FunctionDef}
    (h : definitionErrors w batch d = []) :
    w.arity? d.name = none ∧ check (bodyScope w batch d) true d.body = .ok () ∧
      ∃ u, resolve? d = some u ∧ u.name = d.name ∧ u.body = d.body := by
  rw [definitionErrors, List.append_eq_nil_iff, List.append_eq_nil_iff,
    List.append_eq_nil_iff] at h
  obtain ⟨⟨⟨ht, hp⟩, hr⟩, hb⟩ := h
  refine ⟨?_, ?_, ?_⟩
  · cases ha : w.arity? d.name with
    | none => rfl
    | some a => simp [ha] at ht
  · cases hc : check (bodyScope w batch d) true d.body with
    | ok u => rfl
    | error e => simp [hc] at hb
  · obtain ⟨ps, hps⟩ := mapM_of_paramErrors hp
    obtain ⟨k, hk⟩ := ofTypeName?_of_typeErrors hr
    exact ⟨⟨d.name, ps, k, d.body⟩, by simp [resolve?, hps, hk], rfl, rfl⟩

theorem resolve?_eq {d : FunctionDef} {u : UserFunction} (h : resolve? d = some u) :
    u.name = d.name ∧ u.body = d.body ∧ u.params.map (·.1) = d.params.map (·.name) := by
  simp only [resolve?, Option.bind_eq_bind, Option.bind_eq_some_iff] at h
  obtain ⟨ps, hps, k, -, hk⟩ := h
  cases hk
  refine ⟨rfl, rfl, ?_⟩
  change ps.map (·.1) = d.params.map (·.name)
  generalize d.params = params at hps
  induction params generalizing ps with
  | nil =>
    cases hps
    rfl
  | cons p params ih =>
    simp only [List.mapM_cons, Option.bind_eq_bind, Option.bind_eq_some_iff,
      Option.map_eq_some_iff] at hps
    obtain ⟨_, ⟨k, -, rfl⟩, ps, hps, hcons⟩ := hps
    cases hcons
    rw [List.map_cons, List.map_cons, ih ps hps]

theorem mem_filterMap_resolve? {batch : List FunctionDef} {u : UserFunction}
    (h : u ∈ batch.filterMap resolve?) : ∃ d ∈ batch, d.name = u.name ∧ d.body = u.body := by
  obtain ⟨d, hd, hu⟩ := List.mem_filterMap.mp h
  obtain ⟨hn, hb, -⟩ := resolve?_eq hu
  exact ⟨d, hd, hn.symm, hb.symm⟩

theorem eq_of_definitionErrors {batch : List FunctionDef} {d d' : FunctionDef}
    (h : definitionErrors w batch d = []) (hd : d ∈ batch) (hd' : d' ∈ batch)
    (hn : d'.name = d.name) : d' = d := by
  have hl : ¬ 1 < (batch.filter (·.name == d.name)).length := by
    intro hl
    simp [definitionErrors, hl] at h
  have hm : d ∈ batch.filter (·.name == d.name) := by simp [hd]
  have hm' : d' ∈ batch.filter (·.name == d.name) := by simp [hd', hn]
  obtain ⟨x, hx⟩ := List.length_eq_one_iff.mp
    (Nat.le_antisymm (Nat.not_lt.mp hl) (List.length_pos_of_mem hm))
  rw [hx, List.mem_singleton] at hm hm'
  rw [hm, hm']

theorem get?_addFunctions (fs : List UserFunction) (name : String) :
    (∃ u ∈ fs, u.name = name ∧ (w.addFunctions fs).functions.get? name = some u) ∨
      (∀ u ∈ fs, u.name ≠ name) ∧
        (w.addFunctions fs).functions.get? name = w.functions.get? name := by
  change (∃ u ∈ fs, u.name = name ∧
    (fs.foldl (fun t f => t.insert f.name f) w.functions).get? name = some u) ∨
      (∀ u ∈ fs, u.name ≠ name) ∧
      (fs.foldl (fun t f => t.insert f.name f) w.functions).get? name = w.functions.get? name
  generalize w.functions = table
  induction fs generalizing table with
  | nil => exact .inr ⟨by simp, rfl⟩
  | cons f fs ih =>
    obtain ⟨u, hu, hn, hg⟩ | ⟨hne, hg⟩ := ih (table.insert f.name f)
    · exact .inl ⟨u, by simp [hu], hn, hg⟩
    · by_cases hf : f.name = name
      · refine .inl ⟨f, by simp, hf, hg.trans ?_⟩
        rw [← hf, Fields.get?_insert_self]
      · refine .inr ⟨?_, hg.trans (Fields.get?_insert_ne hf)⟩
        intro u hu
        obtain rfl | hu := List.mem_cons.mp hu
        · exact hf
        · exact hne u hu

end

end FormulaShell.Workbook
