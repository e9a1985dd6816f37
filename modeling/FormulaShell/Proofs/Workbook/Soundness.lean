import FormulaShell.Proofs.Formula.Progress
import FormulaShell.Proofs.Workbook.Wellformed

namespace FormulaShell.Workbook

open FormulaShell.Formula

variable {σ : Type} {w w' : Workbook σ} {world : σ}

def ownScope (w : Workbook σ) (u : UserFunction) : Scope where
  isName n := u.params.any (·.1 == n) || w.values.contains n
  arity? := w.arity?

def BodiesChecked (w : Workbook σ) : Prop :=
  ∀ g u, w.functions.get? g = some u → check (w.ownScope u) true u.body = .ok ()

/-- Nothing that a body can use is lost. -/
structure Extends (w w' : Workbook σ) : Prop where
  names : ∀ n, w.values.contains n → w'.values.contains n
  arities : ∀ f a, w.arity? f = some a → w'.arity? f = some a

theorem Extends.check (h : Extends w w') {u : UserFunction}
    (hc : check (w.ownScope u) true u.body = .ok ()) :
    check (w'.ownScope u) true u.body = .ok () := by
  refine check_mono (fun n hn => ?_) h.arities hc
  simp only [ownScope, Bool.or_eq_true] at hn ⊢
  exact hn.imp_right (h.names n)

theorem BodiesChecked.of_extends (hb : BodiesChecked w) (h : Extends w w')
    (hf : w'.functions = w.functions) : BodiesChecked w' := by
  intro g u hu
  rw [hf] at hu
  exact h.check (hb g u hu)

theorem contains_insert_of_contains {values : Fields Value} {n m : String} {v : Value}
    (h : values.contains n) : (values.insert m v).contains n := by
  rw [Fields.contains_insert, h, Bool.or_true]

theorem extends_recalculate {dirty : List String} {fs : List NamedFormula} :
    Extends w (recalculate dirty w world fs).1.workbook := by
  constructor
  · intro n hn
    induction fs generalizing dirty w world with
    | nil => exact hn
    | cons f fs ih =>
      by_cases hd : f.dependencies.any dirty.contains
      · rw [recalculate_dirty hd]
        exact ih (contains_insert_of_contains hn)
      · rw [recalculate_clean hd]
        exact ih hn
  · intro f a ha
    rwa [arity?, sameTables_recalculate.functions, sameTables_recalculate.hosts]

theorem extends_assigned {name : String} {lock : Option Kind} {v : Value} :
    Extends w (w.assigned name lock v) :=
  ⟨fun _ => contains_insert_of_contains, fun _ _ => id⟩

theorem extends_defineFunctions {source : String} (hw : w.defineFunctions source = .ok w') :
    Extends w w' := by
  obtain ⟨-, -, hv⟩ := defineFunctions_formulas hw
  refine ⟨fun n hn => by rwa [hv], fun f a ha => ?_⟩
  have hs : (w.arity? f).isSome := by simp [ha]
  rwa [(keeps_defineFunctions hw).arity? (defineFunctions_hosts hw) hs]

theorem BodiesChecked.defineFunctions (h : BodiesChecked w) {source : String}
    (hw : w.defineFunctions source = .ok w') : BodiesChecked w' := by
  obtain ⟨-, -, hv⟩ := defineFunctions_formulas hw
  obtain ⟨batch, -, he, hb⟩ := defineFunctions_ok hw
  intro g u hu
  obtain ⟨u', hm, -, hg⟩ | ⟨-, hg⟩ := get?_addFunctions (w := w) (batch.filterMap resolve?) g
  · rw [hb, hg, Option.some.injEq] at hu
    subst hu
    obtain ⟨d, hd, hr⟩ := List.mem_filterMap.mp hm
    obtain ⟨-, hbody, hparams⟩ := resolve?_eq hr
    obtain ⟨-, hcheck, -⟩ := resolve?_of_definitionErrors (he d hd)
    rw [hbody]
    refine check_mono (fun n hn => ?_) (fun f a => arity?_of_bodyScope hw he hb) hcheck
    have hn' : (u'.params.map (·.1)).any (· == n) || w.values.contains n := by
      rw [hparams, List.any_map]
      exact hn
    rw [List.any_map] at hn'
    rw [ownScope, hv]
    exact hn'
  · rw [hb, hg] at hu
    exact (extends_defineFunctions hw).check (h g u hu)

theorem BodiesChecked.step (h : BodiesChecked w) {r : Request σ} (hs : Step w world r w') :
    BodiesChecked w' := by
  cases hs with
  | @update name v _ hc =>
    obtain ⟨-, lock, -, rfl⟩ := update_ok hc
    have ha : BodiesChecked (w.assigned name lock v) := h.of_extends extends_assigned rfl
    exact ha.of_extends extends_recalculate sameTables_recalculate.functions
  | define hc =>
    obtain ⟨-, -, e, v, -, -, rfl⟩ := define_ok hc
    exact h.of_extends ⟨fun _ => contains_insert_of_contains, fun _ _ => id⟩ rfl
  | functions hw => exact h.defineFunctions hw
  | same => exact h

theorem bodiesChecked_empty : BodiesChecked (.empty : Workbook σ) := by
  intro g u hu
  simp [empty, Fields.get?, Fields.empty, Fields.find?] at hu

theorem BodiesChecked.run (h : BodiesChecked w) (rs : List (Request σ)) :
    BodiesChecked (w.run world rs).1 := by
  induction rs generalizing w world with
  | nil => exact h
  | cons r rs ih => exact ih (h.step (step_perform w world r))

theorem BodiesChecked.environment (h : BodiesChecked w) (bindings : Record) (poll : Poll σ) :
    (w.environment bindings poll).BodiesChecked := by
  intro g u hu scope hp
  have hn : ∀ n, (w.ownScope u).isName n →
      ((w.environment bindings poll).scope [scope]).isName n := by
    intro n hn
    simp only [ownScope, Bool.or_eq_true, List.any_eq_true, beq_iff_eq] at hn
    obtain ⟨p, hm, rfl⟩ | hv := hn
    · simp [Environment.scope, hp p hm]
    · simp only [Environment.scope, Bool.or_eq_true]
      exact .inr hv
  exact check_mono hn (fun _ _ => id) (h g u hu)

theorem checked_of_prepare {source : String} {bindings : Record} {e : Expr}
    (h : w.prepare source bindings = .ok e) (poll : Poll σ) :
    Site.Checked (w.environment bindings poll) ⟨true, [], e⟩ := by
  have hn : ∀ n, (w.scope bindings).isName n →
      ((w.environment bindings poll).scope []).isName n := by
    intro n hn
    simp only [Environment.scope, List.any_nil, Bool.false_or]
    exact hn
  exact check_mono hn (fun _ _ => id) (prepare_ok h).2

/-- An evaluation that the check lets through comes to calls that have a function for their
arguments, and to names that have a value, those in row arguments apart. So the answers to unknown
functions, to wrong numbers of arguments and to all other unknown names make no difference to it. -/
theorem evaluation_answered (world : σ) (rs : List (Request σ)) {source : String}
    {bindings : Record} {e : Expr} (h : (run .empty world rs).1.prepare source bindings = .ok e)
    (poll : Poll σ) :
    let env := (run .empty world rs).1.environment bindings poll
    (∀ s, Site.Reaches env.functions ⟨true, [], e⟩ s → s.Answered env) ∧
      ∀ faults : Faults, faults.tooDeep = env.faults.tooDeep →
        faults.missingArgument = env.faults.missingArgument →
        (∀ s, Site.Reaches env.functions ⟨true, [], e⟩ s → s.named = false →
          ∀ n offset, s.expr = .name n offset →
            faults.unknownName n = env.faults.unknownName n) →
        Formula.evaluate { env with faults := faults } e = Formula.evaluate env e := by
  intro env
  have hbodies : env.BodiesChecked := (bodiesChecked_empty.run rs).environment bindings poll
  have hanswered : ∀ s, Site.Reaches env.functions ⟨true, [], e⟩ s → s.Answered env :=
    fun s hs => ((checked_of_prepare h poll).reaches hbodies hs).answered
  refine ⟨hanswered, fun faults hd hm hn => ?_⟩
  have hosts : env.hosts = .empty := (wellformed_empty.run rs).hostless
  have hsame : ∀ s, Site.Reaches env.functions ⟨true, [], e⟩ s →
      s.SameAnswer env { env with faults := faults } := fun s hs =>
    (hanswered s hs).sameAnswer fun hrow n offset he => (hn s hs hrow n offset he).symm
  have hpoll : env.poll = { env with faults := faults }.poll := rfl
  exact (evaluate_congr hpoll hosts hd.symm hm.symm hsame).symm

def gradesRun : List (Request Unit) :=
  [.update "limit" (.number 2.0),
    .functions "Pass(n: Number): Text = If(n < limit, Fail(n + 1), \"passed\");
      Fail(n: Number): Text = If(n < 0, \"failed\", Pass(n * 2))",
    .define "F" "ForAll([{n: 1}, {n: 5}], Pass(n))", .update "limit" (.number 3.0)]

def gradesBindings : Record := .ofList [("more", .table (Table.ofValues [.number 7.0]))]

theorem gradesRun_answered :
    ∃ e, (run .empty () gradesRun).1.prepare "ForAll(more, Fail(Value) & other); Last(F)"
      gradesBindings = .ok e ∧
    let env := (run .empty () gradesRun).1.environment gradesBindings .never
    (∀ s, Site.Reaches env.functions ⟨true, [], e⟩ s → s.Answered env) ∧
      ∀ answer, Formula.evaluate { env with faults := { env.faults with
        unknownFunction := fun _ => answer
        wrongArity := fun _ _ _ => answer } } e = Formula.evaluate env e := by
  obtain ⟨e, h⟩ := exists_ok_of_isOk
    (x := (run .empty () gradesRun).1.prepare "ForAll(more, Fail(Value) & other); Last(F)"
      gradesBindings) (by decide +kernel)
  obtain ⟨hanswered, hfaults⟩ := evaluation_answered () gradesRun h .never
  exact ⟨e, h, hanswered, fun answer => hfaults _ rfl rfl fun _ _ _ _ _ _ => rfl⟩

end FormulaShell.Workbook
