import FormulaShell.Proofs.Formula.Locality
import FormulaShell.Proofs.Formula.Stability
import Mathlib.Data.List.Forall2

namespace FormulaShell.Formula

variable {σ α β : Type}

/-- Every result that the action finishes with has the property, wherever it starts. -/
def Returns (P : α → Prop) (a : Eval σ α) : Prop := ∀ p v, (a.run.run p).1 = .ok v → P v

section

variable {P : α → Prop} {Q : β → Prop}

theorem returns_pure {v : α} (h : P v) : Returns P (pure v : Eval σ α) := by
  rintro p _ ⟨⟩
  exact h

theorem returns_true (a : Eval σ α) : Returns (fun _ => True) a := fun _ _ _ => trivial

theorem returns_of_forall (h : ∀ v, P v) (a : Eval σ α) : Returns P a := fun _ v _ => h v

theorem Returns.bind {a : Eval σ α} {f : α → Eval σ β} (ha : Returns P a)
    (hf : ∀ v, P v → Returns Q (f v)) : Returns Q (a >>= f) := by
  intro p w h
  have hv := ha p
  rw [run_bind] at h
  rcases hp : a.run.run p with ⟨i | v, q⟩
  · rw [hp] at h
    cases h
  · rw [hp] at h hv
    exact hf v (hv v rfl) q w h

theorem Returns.imp {P' : α → Prop} {a : Eval σ α} (ha : Returns P a) (h : ∀ v, P v → P' v) :
    Returns P' a :=
  fun p v hv => h v (ha p v hv)

theorem Returns.map {a : Eval σ α} {f : α → β} (ha : Returns P a) (hf : ∀ v, P v → Q (f v)) :
    Returns Q (a >>= fun v => pure (f v)) :=
  ha.bind fun v hv => returns_pure (hf v hv)

theorem returns_mapM {f : α → Eval σ β} {xs : List α} (h : ∀ x ∈ xs, Returns Q (f x)) :
    Returns (fun ys => ∀ y ∈ ys, Q y) (xs.mapM f) := by
  induction xs with
  | nil => exact returns_pure (by simp)
  | cons x xs ih =>
    rw [List.mapM_cons]
    refine (h x (by simp)).bind fun y hy => (ih fun x hx => h x (by simp [hx])).map fun ys hys => ?_
    exact List.forall_mem_cons.mpr ⟨hy, hys⟩

theorem returns_filterRows (test : Record → Eval σ (Except String Bool)) (kept rows : Table) :
    Returns (fun r => ∀ t, r = .ok t → t.Sublist (kept.reverse ++ rows))
      (filterRows test kept rows) := by
  induction rows generalizing kept with
  | nil =>
    refine returns_pure ?_
    rintro _ ⟨⟩
    exact List.sublist_append_left ..
  | cons row rows ih =>
    rw [filterRows]
    refine (returns_true (test row)).bind fun passed _ => ?_
    match passed with
    | .error m => exact returns_pure (by simp)
    | .ok true => simpa using ih (row :: kept)
    | .ok false =>
      intro p r hr t ht
      refine (ih kept p r hr t ht).trans ?_
      exact (List.Sublist.refl _).append (List.sublist_cons_self row rows)

end

/-- The values that an environment without a host has for names have the property. -/
structure Furnished (P : Value → Prop) (env : Environment σ) : Prop where
  globals : ∀ n v, env.globals.get? n = some v → P v
  bindings : ∀ n v, env.bindings.get? n = some v → P v
  hostless : env.hosts = .empty
  faults : env.faults = .standard

def HostFunction.Keeps (P : Value → Prop) (h : HostFunction σ) : Prop :=
  ∀ vs world, (∀ v ∈ vs, P v) → P (h.run vs world).1

structure Supplied (P : Value → Prop) (env : Environment σ) : Prop where
  globals : ∀ n v, env.globals.get? n = some v → P v
  bindings : ∀ n v, env.bindings.get? n = some v → P v
  hosts : ∀ n h, env.hosts.get? n = some h → h.Keeps P
  faults : env.faults = .standard

theorem Furnished.supplied {P : Value → Prop} {env : Environment σ} (h : Furnished P env) :
    Supplied P env where
  globals := h.globals
  bindings := h.bindings
  hosts _ _ hh := absurd hh (get?_ne_host h.hostless)
  faults := h.faults

def Frames.All (P : Value → Prop) (frames : Frames) : Prop := ∀ r ∈ frames, P (.record r)

/-- What the property has to be kept by here: a literal has it, and a sequence keeps it whose
increment is given. -/
def Expr.Fits (P : Value → Prop) (env : Environment σ) : Expr → Prop
  | .number x => P (.number x)
  | .call f args _ => callee env f args.length = .builtin .sequence →
      ∀ n start step, args = [n, start, step] →
        ∀ enter frames, Returns (Steps P) (eval env enter frames step)
  | _ => True

def Expr.AllFit (P : Value → Prop) (env : Environment σ) (e : Expr) : Prop :=
  ∀ t ∈ e.parts, t.Fits P env

def Enter.Keeps (P : Value → Prop) (env : Environment σ) : Enter σ → Prop
  | none => True
  | some run => ∀ scope body, P (.record scope) → body.AllFit P env → Returns P (run scope body)

theorem exists_of_forall₂ {R : α → β → Prop} {x y z : α} {l : List β}
    (h : List.Forall₂ R [x, y, z] l) : ∃ a b c, l = [a, b, c] ∧ R z c := by
  obtain ⟨a, _, -, h₁, rfl⟩ := List.forall₂_cons_left_iff.mp h
  obtain ⟨b, _, -, h₂, rfl⟩ := List.forall₂_cons_left_iff.mp h₁
  obtain ⟨c, _, hc, h₃, rfl⟩ := List.forall₂_cons_left_iff.mp h₂
  obtain rfl := List.forall₂_nil_left_iff.mp h₃
  exact ⟨a, b, c, rfl, hc⟩

section

variable {P : Value → Prop} {env : Environment σ} {enter : Enter σ} {frames : Frames}

theorem returns_evalAll {Q : Value → Expr → Prop} {items : List Expr}
    (h : ∀ e ∈ items, Returns (Q · e) (eval env enter frames e)) :
    Returns (List.Forall₂ Q · items) (evalAll env enter frames items) := by
  induction items with
  | nil => exact returns_pure .nil
  | cons e items ih =>
    refine (h e (by simp)).bind fun v hv => ?_
    exact (ih fun e he => h e (by simp [he])).map fun vs hvs => .cons hv hvs

theorem returns_values {items : List Expr} (h : ∀ e ∈ items, Returns P (eval env enter frames e)) :
    Returns (fun vs => ∀ v ∈ vs, P v) (evalAll env enter frames items) := by
  have hall := returns_evalAll (Q := fun v _ => P v ∧ True) fun e he =>
    (h e he).imp fun _ hv => ⟨hv, trivial⟩
  exact hall.imp fun vs hvs => ((List.forall₂_and_left vs items).mp hvs).1

theorem returns_evalChain {items : List Expr} {last : Value} (hl : P last)
    (h : ∀ e ∈ items, Returns P (eval env enter frames e)) :
    Returns P (evalChain env enter frames last items) := by
  induction items generalizing last with
  | nil => exact returns_pure hl
  | cons e items ih =>
    refine (h e (by simp)).bind fun v hv => ?_
    by_cases he : v.isError
    · rw [if_pos he]
      exact returns_pure hv
    · rw [if_neg he]
      exact ih hv fun e he => h e (by simp [he])

end

namespace Stable

variable {P : Value → Prop} (hP : Stable P) {env : Environment σ} {enter : Enter σ}
  {frames : Frames}
include hP

theorem rowFrame {row : Record} (h : P (.record row)) : P (.record (Formula.rowFrame row)) :=
  hP.insert h h

theorem inRow {row : Record} (hf : frames.All P) (h : P (.record row)) :
    Frames.All P (Formula.rowFrame row :: frames) :=
  List.forall_mem_cons.mpr ⟨hP.rowFrame h, hf⟩

theorem lookup (he : Supplied P env) (hf : frames.All P) (n : String) :
    P (Formula.lookup env frames n) := by
  unfold Formula.lookup
  split
  next v hv =>
    obtain ⟨r, hr, hv⟩ := List.exists_of_findSome?_eq_some hv
    exact hP.get? (hf r hr) hv
  next =>
    split
    next v hv => exact he.bindings n v hv
    next =>
      cases hg : env.globals.get? n with
      | some v => exact he.globals n v hg
      | none =>
        rw [he.faults]
        exact hP.error _

theorem resultOf (f : UserFunction) {v : Value} (hv : P v) : P (Formula.resultOf f v) := by
  unfold Formula.resultOf
  split
  · exact hv
  · split
    · exact hP.plain rfl
    · exact hP.valueOf fun w hw => hP.coerce hv hw

theorem applyStrict (he : Supplied P env) {b : Builtin} {vs : List Value} (hvs : ∀ v ∈ vs, P v)
    (hs : b = .sequence → ∀ n start step, vs = [n, start, step] → Steps P step) :
    P (Formula.applyStrict env b vs) := by
  unfold Formula.applyStrict
  split
  next v hv =>
    split at hv
    · cases hv
    · exact hvs v (List.mem_of_find?_eq_some hv)
  next =>
    split
    next r hr => exact hP.result? hvs hs hr
    next =>
      rw [he.faults]
      exact hP.error _

theorem applyHost (he : Supplied P env) {name : String} {h : HostFunction σ}
    (hh : env.hosts.get? name = some h) {vs : List Value} (hvs : ∀ v ∈ vs, P v) :
    Returns P (Formula.applyHost env name h vs) := by
  unfold Formula.applyHost
  split
  next v hv => exact returns_pure (hvs v (List.mem_of_find?_eq_some hv))
  next =>
    split
    · rintro p _ ⟨⟩
      exact he.hosts name h hh vs p.world hvs
    · rw [he.faults]
      exact returns_pure (hP.error _)

theorem evalFields {fields : List (String × Expr)} {done : Record} (hd : P (.record done))
    (h : ∀ p ∈ fields, Returns P (eval env enter frames p.2)) :
    Returns (fun r => P (.record r)) (Formula.evalFields env enter frames done fields) := by
  induction fields generalizing done with
  | nil => exact returns_pure hd
  | cons p fields ih =>
    refine (h p (by simp)).bind fun v hv => ih (hP.insert hd hv) fun q hq => ?_
    exact h q (by simp [hq])

theorem evalIf : ∀ {args : List Expr}, (∀ e ∈ args, Returns P (eval env enter frames e)) →
    Returns P (Formula.evalIf env enter frames args)
  | [], _ => returns_pure (hP.plain rfl)
  | [otherwise], h => h otherwise (by simp)
  | condition :: value :: rest, h => by
    refine (h condition (by simp)).bind fun v _ => ?_
    obtain m | b := truth v
    · exact returns_pure (hP.error m)
    · cases b with
      | false => exact evalIf fun e he => h e (by simp [he])
      | true => exact h value (by simp)

/-- Arguments that are bound make a scope that has the property; else the value that ends the
binding has it. -/
theorem bindArgs {params : List (String × Kind)} {args : List Expr} {scope : Record}
    (hs : P (.record scope)) (h : ∀ e ∈ args, Returns P (eval env enter frames e)) :
    Returns (fun | .ok r => P (.record r) | .error v => P v)
      (Formula.bindArgs env enter frames scope params args) := by
  induction params generalizing args scope with
  | nil => cases args <;> exact returns_pure hs
  | cons p params ih =>
    cases args with
    | nil => exact returns_pure hs
    | cons e args =>
      rw [Formula.bindArgs]
      refine (h e (by simp)).bind fun v hv => ?_
      by_cases he : v.isError
      · rw [if_pos he]
        exact returns_pure hv
      · rw [if_neg he]
        cases hw : Formula.coerce v p.2 with
        | error m => exact returns_pure (hP.error m)
        | ok w => exact ih (hP.insert hs (hP.coerce hv hw)) fun a ha => h a (by simp [ha])

theorem callUser (he : Supplied P env) (hk : enter.Keeps P env) {f : UserFunction}
    (hb : f.body.AllFit P env) {args : List Expr}
    (h : ∀ e ∈ args, Returns P (eval env enter frames e)) :
    Returns P (Formula.callUser env enter frames f args) := by
  have hdeep : Returns P (pure (env.faults.tooDeep f.name) : Eval σ Value) := by
    rw [he.faults]
    exact returns_pure (hP.error _)
  unfold Formula.callUser
  cases enter with
  | none => exact hdeep
  | some run =>
    refine (hP.bindArgs hP.empty h).bind fun scope hs => ?_
    cases scope with
    | error v => exact returns_pure hs
    | ok scope => exact (hk scope f.body hs hb).map fun v hv => hP.resultOf f hv

theorem collect {name : String} {first : Value} {more : List Expr} (hfirst : P first)
    (here : ∀ e ∈ more, Returns P (eval env enter frames e))
    (inRow : ∀ e ∈ more, ∀ row, P (.record row) →
      Returns P (eval env enter (Formula.rowFrame row :: frames) e)) :
    Returns (fun r => ∀ ns, r = .ok ns → ∀ n ∈ ns, P n.toValue)
      (Formula.collect env enter frames name first more) := by
  have refused {m : String} : Returns (fun r => ∀ ns, r = .ok ns → ∀ n ∈ ns, P n.toValue)
      (pure (.error m) : Eval σ (Except String (List Numeric))) := returns_pure nofun
  cases more with
  | nil =>
    cases first with
    | table rows =>
      change Returns _ (if _ then _ else _)
      split
      · refine returns_pure fun ns => hP.numerics fun v hv => ?_
        obtain ⟨row, hrow, hv⟩ := List.mem_filterMap.mp hv
        exact hP.get? (hP.row hfirst hrow) hv
      · exact refused
    | _ => exact returns_pure fun ns => hP.numerics (by simpa using hfirst)
  | cons e more =>
    cases more with
    | nil =>
      cases first with
      | table rows =>
        refine (returns_mapM fun row hrow => ?_).map fun vs hvs ns => hP.numerics hvs
        exact inRow e (by simp) row (hP.row hfirst hrow)
      | _ =>
        exact (here e (by simp)).map fun w hw ns => hP.numerics
          (List.forall_mem_cons.mpr ⟨hfirst, by simpa using hw⟩)
    | cons f more =>
      cases first with
      | table rows => exact refused
      | _ =>
        refine (here e (by simp)).bind fun w hw => ?_
        refine (returns_values fun a ha => here a (List.mem_cons_of_mem e ha)).map
          fun vs hvs ns => hP.numerics ?_
        exact List.forall_mem_cons.mpr ⟨hfirst, List.forall_mem_cons.mpr ⟨hw, hvs⟩⟩

theorem callBuiltin (he : Supplied P env) {b : Builtin} {args : List Expr}
    (here : ∀ e ∈ args, Returns P (eval env enter frames e))
    (inRow : ∀ e ∈ args, ∀ row, P (.record row) →
      Returns P (eval env enter (Formula.rowFrame row :: frames) e))
    (hs : b = .sequence → ∀ n start step, args = [n, start, step] →
      Returns (Steps P) (eval env enter frames step)) :
    Returns P (Formula.callBuiltin env enter frames b args) := by
  have strict : Returns P (do
      let vs ← evalAll env enter frames args
      pure (Formula.applyStrict env b vs)) := by
    refine (returns_evalAll (Q := fun v e => P v ∧
      (b = .sequence → (∃ n start, args = [n, start, e]) → Steps P v)) fun e hm p v hv => ?_).map
      fun vs hvs => ?_
    · exact ⟨here e hm p v hv, fun hb ⟨n, start, ha⟩ => hs hb n start e ha p v hv⟩
    · obtain ⟨hvs, hthird⟩ := (List.forall₂_and_left vs args).mp hvs
      refine hP.applyStrict he hvs fun hb n start step h => ?_
      subst h
      obtain ⟨m, first, last, rfl, hlast⟩ := exists_of_forall₂ hthird
      exact hlast hb ⟨m, first, rfl⟩
  have aggregate (name : String) (result : Except String (List Numeric) → Value)
      (hr : ∀ r, (∀ ns, r = .ok ns → ∀ n ∈ ns, P n.toValue) → P (result r)) (t : Expr)
      (more : List Expr) (hargs : args = t :: more) :
      Returns P (do
        let first ← eval env enter frames t
        return result (← Formula.collect env enter frames name first more)) := by
    subst hargs
    refine (here t (by simp)).bind fun first hfirst => ?_
    refine (hP.collect hfirst (fun e hm => here e ?_) fun e hm => inRow e ?_).map fun ns => hr ns
    · exact List.mem_cons_of_mem t hm
    · exact List.mem_cons_of_mem t hm
  cases args with
  | nil =>
    cases b with
    | ifThen => exact hP.evalIf here
    | _ => exact strict
  | cons t args =>
    cases b with
    | ifThen => exact hP.evalIf here
    | sum =>
      exact aggregate "Sum" (fun ns => Formula.valueOf (ns.bind total))
        (fun _ _ => hP.plain (plain_bind plain_total)) t args rfl
    | max =>
      exact aggregate "Max" (fun ns => Formula.valueOf (ns.map (Formula.extremeValue .gt)))
        (fun _ h => hP.map fun ns hns => hP.extremeValue .gt (h ns hns)) t args rfl
    | min =>
      exact aggregate "Min" (fun ns => Formula.valueOf (ns.map (Formula.extremeValue .lt)))
        (fun _ h => hP.map fun ns hns => hP.extremeValue .lt (h ns hns)) t args rfl
    | filter =>
      refine (here t (by simp)).bind fun v hv => ?_
      cases hr : Formula.rows "Filter" v with
      | error m => exact returns_pure (hP.error m)
      | ok rows =>
        refine (returns_filterRows _ [] rows).map fun kept hkept => hP.map fun t ht => ?_
        exact hP.sublist (hP.rows hv hr) (hkept t ht)
    | forAll =>
      cases args with
      | nil => exact strict
      | cons e args =>
        refine (here t (by simp)).bind fun v hv => ?_
        cases hr : Formula.rows "ForAll" v with
        | error m => exact returns_pure (hP.error m)
        | ok rows =>
          refine (returns_mapM fun row hrow => inRow e (by simp) row ?_).map fun vs hvs => ?_
          · exact hP.row (hP.rows hv hr) hrow
          · exact hP.tableOfResults hvs
    | _ => exact strict

theorem fault (he : Supplied P env) {name : String} {count : Nat} {answer : Value}
    (h : callee env name count = .fault answer) : P answer := by
  rw [callee, he.faults] at h
  split at h
  next =>
    split at h <;> cases h
    exact hP.error _
  next =>
    split at h
    next => cases h
    next =>
      split at h
      next =>
        cases h
        exact hP.error _
      next =>
        split at h <;> cases h
        exact hP.error _

theorem binary {op : BinaryOp} {l r : Expr} (hl : Returns P (Formula.eval env enter frames l))
    (hr : Returns P (Formula.eval env enter frames r)) :
    Returns P (Formula.eval env enter frames (.binary op l r)) := by
  have second : Returns P (do
      return Formula.valueOf ((truth (← Formula.eval env enter frames r)).map .boolean)) :=
    hr.map fun v _ => hP.plain (plain_map fun _ => rfl)
  cases op with
  | and =>
    refine (returns_true _).bind fun _ _ => hl.bind fun v _ => ?_
    obtain m | b := truth v
    · exact returns_pure (hP.error m)
    · cases b with
      | false => exact returns_pure (hP.plain rfl)
      | true => exact second
  | or =>
    refine (returns_true _).bind fun _ _ => hl.bind fun v _ => ?_
    obtain m | b := truth v
    · exact returns_pure (hP.error m)
    · cases b with
      | false => exact second
      | true => exact returns_pure (hP.plain rfl)
  | _ =>
    exact (returns_true _).bind fun _ _ => hl.bind fun v _ => hr.map fun w _ =>
      hP.plain (isPlain_binary _ v w)

/-- Where every literal has the property and every given increment keeps it, evaluation does. -/
theorem eval (he : Supplied P env)
    (hu : ∀ name f, env.functions.get? name = some f → f.body.AllFit P env)
    (hk : enter.Keeps P env) (hf : frames.All P) {e : Expr} (h : e.AllFit P env) :
    Returns P (Formula.eval env enter frames e) := by
  have here {a : Eval σ Value} (ha : Returns P a) : Returns P (visit env >>= fun _ => a) :=
    (returns_true _).bind fun _ _ => ha
  -- The parts of an expression fit as it does.
  have inside {e t : Expr} {ts : List Expr} (h : ∀ u ∈ e :: ts, u.Fits P env)
      (ht : ∀ u ∈ t.parts, u ∈ ts) : t.AllFit P env :=
    fun u hm => h u (List.mem_cons_of_mem e (ht u hm))
  induction e generalizing frames with
  | number x => exact here (returns_pure (h _ (Expr.mem_parts_self _)))
  | text s => exact here (returns_pure (hP.plain rfl))
  | boolean b => exact here (returns_pure (hP.plain rfl))
  | name n offset => exact here (returns_pure (hP.lookup he hf n))
  | record fields ih =>
    refine here ((hP.evalFields hP.empty fun p hp => ih p hp hf ?_).map fun r hr => hr)
    exact inside h fun u hm => Expr.mem_fieldParts.mpr ⟨p, hp, hm⟩
  | table items ih =>
    refine here ((returns_values fun e hm => ih e hm hf ?_).map fun vs hvs => hP.column hvs)
    exact inside h fun u hu => Expr.mem_allParts.mpr ⟨e, hm, hu⟩
  | chain items ih =>
    refine here (returns_evalChain (hP.plain rfl) fun e hm => ih e hm hf ?_)
    exact inside h fun u hu => Expr.mem_allParts.mpr ⟨e, hm, hu⟩
  | unary op e ih => exact here ((ih hf (inside h fun _ => id)).map fun v hv => hP.unary hv op)
  | percent e ih =>
    exact here ((ih hf (inside h fun _ => id)).map fun v _ => hP.plain (isPlain_percent v))
  | field e name ih =>
    exact here ((ih hf (inside h fun _ => id)).map fun v hv => hP.fieldOf hv name)
  | binary op l r ihl ihr =>
    exact hP.binary (ihl hf (inside h fun _ => List.mem_append_left _))
      (ihr hf (inside h fun _ => List.mem_append_right _))
  | call f args offset ih =>
    have hargs (e : Expr) (hm : e ∈ args) : e.AllFit P env :=
      inside h fun u hu => Expr.mem_allParts.mpr ⟨e, hm, hu⟩
    rw [eval_call]
    refine here ?_
    have inRow (e : Expr) (hm : e ∈ args) (row : Record) (hr : P (.record row)) :=
      ih e hm (hP.inRow hf hr) (hargs e hm)
    cases hc : callee env f args.length with
    | user u =>
      exact hP.callUser he hk (hu f u (get?_of_callee hc).1) fun e hm => ih e hm hf (hargs e hm)
    | host h =>
      refine (returns_values fun e hm => ih e hm hf (hargs e hm)).bind fun vs hvs => ?_
      exact hP.applyHost he (get?_of_callee_host hc) hvs
    | builtin b =>
      refine hP.callBuiltin he (fun e hm => ih e hm hf (hargs e hm)) inRow ?_
      rintro rfl n start step ha
      exact h _ (Expr.mem_parts_self _) hc n start step ha enter frames
    | fault answer => exact returns_pure (hP.fault he hc)

section

variable (he : Supplied P env)
  (hu : ∀ name f, env.functions.get? name = some f → f.body.AllFit P env)
include he hu

theorem evalAt (hf : frames.All P) (depth : Nat) {e : Expr} (h : e.AllFit P env) :
    Returns P (Formula.evalAt env depth frames e) := by
  induction depth generalizing frames e with
  | zero => exact hP.eval he hu (show Enter.Keeps P env none from trivial) hf h
  | succ depth ih =>
    refine hP.eval he hu ?_ hf h
    exact fun scope body hs hb => ih (by simpa [Frames.All] using hs) hb

theorem evaluate_of_supplied {e : Expr} (hfit : e.AllFit P env) (world : σ) {v : Value}
    (h : (Formula.evaluate env e world).1 = .ok v) : P v := by
  have hr : Returns P (pause env >>= fun _ => Formula.evalAt env maxCallDepth [] e) :=
    (returns_true _).bind fun _ _ => hP.evalAt he hu (by simp [Frames.All]) maxCallDepth hfit
  exact hr ⟨0, world⟩ v h

end

theorem evaluate (he : Furnished P env)
    (hu : ∀ name f, env.functions.get? name = some f → f.body.AllFit P env) {e : Expr}
    (hfit : e.AllFit P env) (world : σ) {v : Value}
    (h : (Formula.evaluate env e world).1 = .ok v) : P v :=
  hP.evaluate_of_supplied he.supplied hu hfit world h

end Stable

/-- A property that all values without parts have. Nothing that an expression can hold loses it. -/
structure Lasting (P : Value → Prop) : Prop extends Structural P where
  scalar {v : Value} : v.isScalar → P v

namespace Lasting

variable {P : Value → Prop} (hP : Lasting P)
include hP

theorem plain {v : Value} (h : v.isPlain) : P v :=
  hP.scalar (by cases v <;> first | rfl | exact h)

theorem steps (step : Value) : Steps P step :=
  steps_of_add hP.plain hP.column fun _ _ _ => hP.scalar rfl

theorem stable : Stable P where
  toStructural := hP.toStructural
  plain := hP.plain
  neg _ := hP.scalar rfl
  abs _ := hP.scalar rfl
  sqrt _ _ := hP.scalar rfl
  steps := hP.steps _

theorem fits (env : Environment σ) (t : Expr) : t.Fits P env := by
  cases t with
  | number x => exact hP.scalar rfl
  | call f args offset => exact fun _ _ _ _ _ _ _ => returns_of_forall hP.steps _
  | _ => trivial

theorem evalAt {env : Environment σ} (he : Supplied P env) {frames : Frames} (hf : frames.All P)
    (depth : Nat) (e : Expr) : Returns P (Formula.evalAt env depth frames e) :=
  hP.stable.evalAt he (fun _ _ _ _ _ => hP.fits env _) hf depth fun _ _ => hP.fits env _

theorem evaluate_of_supplied {env : Environment σ} (he : Supplied P env) (e : Expr) (world : σ)
    {v : Value} (h : (Formula.evaluate env e world).1 = .ok v) : P v :=
  hP.stable.evaluate_of_supplied he (fun _ _ _ _ _ => hP.fits env _) (fun _ _ => hP.fits env _)
    world h

theorem evaluate {env : Environment σ} (he : Furnished P env) (e : Expr) (world : σ) {v : Value}
    (h : (Formula.evaluate env e world).1 = .ok v) : P v :=
  hP.evaluate_of_supplied he.supplied e world h

end Lasting

end FormulaShell.Formula
