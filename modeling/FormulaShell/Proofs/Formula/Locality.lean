import FormulaShell.Proofs.Fields
import FormulaShell.Proofs.Formula.Expr
import FormulaShell.Proofs.Formula.Site
import FormulaShell.Proofs.Formula.Yields
import Mathlib.Data.Set.Defs

namespace FormulaShell.Formula

variable {σ : Type} {R : ∀ α : Type, Eval σ α → Eval σ α → Prop}

namespace Congruence

section

variable (hR : Congruence R) {env env' : Environment σ} {enter enter' : Enter σ} {frames : Frames}
include hR

protected theorem evalAll {items : List Expr}
    (h : ∀ e ∈ items, R _ (eval env enter frames e) (eval env' enter' frames e)) :
    R _ (evalAll env enter frames items) (evalAll env' enter' frames items) := by
  induction items with
  | nil => exact hR.value []
  | cons e items ih =>
    exact hR.bind (h e (by simp)) fun v => hR.map (ih fun e he => h e (by simp [he])) (v :: ·)

protected theorem evalFields {fields : List (String × Expr)} (done : Record)
    (h : ∀ p ∈ fields, R _ (eval env enter frames p.2) (eval env' enter' frames p.2)) :
    R _ (evalFields env enter frames done fields) (evalFields env' enter' frames done fields) := by
  induction fields generalizing done with
  | nil => exact hR.value done
  | cons p fields ih =>
    exact hR.bind (h p (by simp)) fun v => ih (done.insert p.1 v) fun q hq => h q (by simp [hq])

protected theorem evalChain {items : List Expr} (last : Value)
    (h : ∀ e ∈ items, R _ (eval env enter frames e) (eval env' enter' frames e)) :
    R _ (evalChain env enter frames last items) (evalChain env' enter' frames last items) := by
  induction items generalizing last with
  | nil => exact hR.value last
  | cons e items ih =>
    refine hR.bind (h e (by simp)) fun v => ?_
    by_cases hv : v.isError
    · rw [if_pos hv, if_pos hv]
      exact hR.value v
    · rw [if_neg hv, if_neg hv]
      exact ih v fun e he => h e (by simp [he])

protected theorem evalConditions {items : List Expr}
    (h : ∀ e ∈ items, R _ (eval env enter frames e) (eval env' enter' frames e)) :
    R _ (evalConditions env enter frames items) (evalConditions env' enter' frames items) := by
  induction items with
  | nil => exact hR.value _
  | cons e items ih =>
    refine hR.bind (h e (by simp)) fun v => ?_
    obtain m | b := truth v
    · exact hR.value _
    · cases b with
      | false => exact hR.value _
      | true => exact ih fun e he => h e (by simp [he])

protected theorem evalIf : ∀ {args : List Expr},
    (∀ e ∈ args, R _ (eval env enter frames e) (eval env' enter' frames e)) →
    R _ (evalIf env enter frames args) (evalIf env' enter' frames args)
  | [], _ => hR.value _
  | [otherwise], h => h otherwise (by simp)
  | condition :: value :: rest, h => by
    refine hR.bind (h condition (by simp)) fun v => ?_
    obtain m | b := truth v
    · exact hR.value _
    · cases b with
      | false => exact Congruence.evalIf fun e he => h e (by simp [he])
      | true => exact h value (by simp)

/-- Going on from arguments that have been bound, in a scope that has all parameters that there are
arguments for. -/
protected theorem bindArgs {β : Type} {k k' : Except Value Record → Eval σ β}
    {params : List (String × Kind)} {args : List Expr} (scope : Record)
    (h : ∀ e ∈ args, R _ (eval env enter frames e) (eval env' enter' frames e))
    (hn : params.length ≤ args.length) (herror : ∀ v, R _ (k (.error v)) (k' (.error v)))
    (hk : ∀ s : Record, (∀ n, scope.contains n ∨ (∃ p ∈ params, p.1 = n) → s.contains n) →
      R _ (k (.ok s)) (k' (.ok s))) :
    R _ (bindArgs env enter frames scope params args >>= k)
      (bindArgs env' enter' frames scope params args >>= k') := by
  induction params generalizing args scope with
  | nil =>
    have hend : ∀ (env : Environment σ) (enter : Enter σ),
        bindArgs env enter frames scope [] args = pure (.ok scope) := by
      intro env enter
      cases args <;> rfl
    rw [hend, hend, pure_bind, pure_bind]
    exact hk scope fun n hs => hs.elim id (by simp)
  | cons p params ih =>
    cases args with
    | nil => simp at hn
    | cons e args =>
      rw [bindArgs, bindArgs, bind_assoc, bind_assoc]
      refine hR.bind (h e (by simp)) fun v => ?_
      by_cases he : v.isError
      · rw [if_pos he, if_pos he, pure_bind, pure_bind]
        exact herror v
      · rw [if_neg he, if_neg he]
        cases coerce v p.2 with
        | error m =>
          simp only [pure_bind]
          exact herror _
        | ok w =>
          refine ih (scope.insert p.1 w) (fun a ha => h a (by simp [ha])) (by simpa using hn) ?_
          intro s hs
          refine hk s fun n hn => hs n ?_
          rw [Fields.contains_insert]
          obtain hn | ⟨q, hq, rfl⟩ := hn
          · simp [hn]
          · obtain rfl | hq := List.mem_cons.mp hq
            · simp
            · exact .inr ⟨q, hq, rfl⟩

protected theorem collect {name : String} {more : List Expr} (first : Value)
    (here : ∀ e ∈ more, R _ (eval env enter frames e) (eval env' enter' frames e))
    (inRow : ∀ e ∈ more, ∀ row,
      R _ (eval env enter (rowFrame row :: frames) e) (eval env' enter' (rowFrame row :: frames) e)) :
    R _ (collect env enter frames name first more) (collect env' enter' frames name first more) := by
  cases more with
  | nil =>
    cases first with
    | table rows =>
      change R _ (if _ then _ else _) (if _ then _ else _)
      split
      · exact hR.value _
      · exact hR.value _
    | _ => exact hR.value _
  | cons e more =>
    cases more with
    | nil =>
      cases first with
      | table rows => exact hR.map (hR.mapM fun row _ => inRow e (by simp) row) _
      | _ => exact hR.map (here e (by simp)) _
    | cons f more =>
      cases first with
      | table rows => exact hR.value _
      | _ =>
        refine hR.bind (here e (by simp)) fun w => ?_
        exact hR.map (hR.evalAll fun a ha => here a (List.mem_cons_of_mem e ha)) _

/-- A built-in function sees its arguments only through their values, in the scope around it and, if
it goes over rows, in the scopes of rows. -/
protected theorem callBuiltin {b : Builtin} {args : List Expr}
    (hm : env.faults.missingArgument = env'.faults.missingArgument)
    (here : ∀ e ∈ args, R _ (eval env enter frames e) (eval env' enter' frames e))
    (inRow : b.rowScoped → ∀ e ∈ args.tail, ∀ row,
      R _ (eval env enter (rowFrame row :: frames) e) (eval env' enter' (rowFrame row :: frames) e)) :
    R _ (callBuiltin env enter frames b args) (callBuiltin env' enter' frames b args) := by
  have strict : R _ (do
      let vs ← evalAll env enter frames args
      pure (applyStrict env b vs)) (do
      let vs ← evalAll env' enter' frames args
      pure (applyStrict env' b vs)) := by
    refine hR.bind (hR.evalAll here) fun vs => ?_
    have hs : applyStrict env b vs = applyStrict env' b vs := by rw [applyStrict, applyStrict, hm]
    rw [hs]
    exact hR.value _
  have aggregate (name : String) (result : Except String (List Numeric) → Value) (t : Expr)
      (more : List Expr) (hargs : args = t :: more) (hb : b.rowScoped) : R _ (do
      let first ← eval env enter frames t
      return result (← collect env enter frames name first more)) (do
      let first ← eval env' enter' frames t
      return result (← collect env' enter' frames name first more)) := by
    subst hargs
    refine hR.bind (here t (by simp)) fun first => ?_
    have there := fun e he => here e (List.mem_cons_of_mem t he)
    exact hR.map (hR.collect first there (inRow hb)) _
  cases args with
  | nil =>
    cases b with
    | ifThen => exact hR.evalIf here
    | _ => exact strict
  | cons t args =>
    cases b with
    | ifThen => exact hR.evalIf here
    | sum => exact aggregate "Sum" (fun ns => valueOf (ns.bind total)) t args rfl rfl
    | max => exact aggregate "Max" (fun ns => valueOf (ns.map (extremeValue .gt))) t args rfl rfl
    | min => exact aggregate "Min" (fun ns => valueOf (ns.map (extremeValue .lt))) t args rfl rfl
    | filter =>
      refine hR.bind (here t (by simp)) fun v => ?_
      obtain m | rows := rows "Filter" v
      · exact hR.value _
      · refine hR.map (hR.filterRows (fun row => hR.evalConditions fun e he => ?_) []) _
        exact inRow rfl e he row
    | forAll =>
      cases args with
      | nil => exact strict
      | cons e args =>
        refine hR.bind (here t (by simp)) fun v => ?_
        obtain m | rows := rows "ForAll" v
        · exact hR.value _
        · exact hR.map (hR.mapM fun row _ => inRow rfl e (by simp) row) _
    | _ => exact strict

protected theorem binary {op : BinaryOp} {l r : Expr} (hv : R _ (visit env) (visit env'))
    (hl : R _ (eval env enter frames l) (eval env' enter' frames l))
    (hr : R _ (eval env enter frames r) (eval env' enter' frames r)) :
    R _ (eval env enter frames (.binary op l r)) (eval env' enter' frames (.binary op l r)) := by
  cases op with
  | and =>
    refine hR.bind hv fun _ => hR.bind hl fun v => ?_
    obtain m | b := truth v
    · exact hR.value _
    · cases b with
      | false => exact hR.value _
      | true => exact hR.map hr _
  | or =>
    refine hR.bind hv fun _ => hR.bind hl fun v => ?_
    obtain m | b := truth v
    · exact hR.value _
    · cases b with
      | false => exact hR.map hr _
      | true => exact hR.value _
  | _ => exact hR.bind hv fun _ => hR.bind hl fun v => hR.map hr _

end

end Congruence

/-- Two environments that differ in what they answer at sites only, as far as `R` can tell. -/
structure Peers (R : ∀ α : Type, Eval σ α → Eval σ α → Prop) (env env' : Environment σ) : Prop where
  visit : R _ (visit env) (visit env')
  host : ∀ name h vs, env.hosts.get? name = some h →
    R _ (applyHost env name h vs) (applyHost env' name h vs)
  tooDeep : env.faults.tooDeep = env'.faults.tooDeep
  missingArgument : env.faults.missingArgument = env'.faults.missingArgument

def Enters (R : ∀ α : Type, Eval σ α → Eval σ α → Prop) (functions : Fields UserFunction) (s : Site) :
    Enter σ → Enter σ → Prop
  | none, none => True
  | some run, some run' => ∀ scope body, Site.Reaches functions s ⟨true, [scope], body⟩ →
      R _ (run scope body) (run' scope body)
  | _, _ => False

section

variable {env env' : Environment σ} {enter enter' : Enter σ}

theorem Enters.next {functions : Fields UserFunction} {s t : Site}
    (h : Enters R functions s enter enter') (hn : s.Next functions t) :
    Enters R functions t enter enter' := by
  match enter, enter', h with
  | none, none, _ => trivial
  | some _, some _, h => exact fun scope body hr => h scope body (hr.head hn)

theorem get?_of_callee_host {name : String} {count : Nat} {h : HostFunction σ}
    (hc : callee env name count = .host h) : env.hosts.get? name = some h := by
  rw [callee] at hc
  split at hc
  next => split at hc <;> cases hc
  next =>
    split at hc
    next hh =>
      cases hc
      exact hh
    next =>
      split at hc
      next => cases hc
      next => split at hc <;> cases hc

theorem get?_ne_host (hosts : env.hosts = .empty) {name : String} {h : HostFunction σ} :
    env.hosts.get? name ≠ some h := by
  simp [hosts, Fields.get?, Fields.empty, Fields.find?]

theorem get?_of_callee {name : String} {count : Nat} {f : UserFunction}
    (h : callee env name count = .user f) :
    env.functions.get? name = some f ∧ f.arity.admits count := by
  rw [callee] at h
  cases hf : env.functions.get? name with
  | some g =>
    simp only [hf] at h
    split at h
    next hn =>
      cases h
      exact ⟨rfl, hn⟩
    next => cases h
  | none =>
    simp only [hf] at h
    split at h
    next => cases h
    next =>
      split at h
      next => cases h
      next => split at h <;> cases h

theorem builtin_of_callee {name : String} {count : Nat} {b : Builtin}
    (h : callee env name count = .builtin b) :
    env.functions.get? name = none ∧ Builtin.ofName? name = some b ∧ b.arity.admits count := by
  rw [callee] at h
  split at h
  next => split at h <;> cases h
  next hf =>
    split at h
    next => cases h
    next =>
      split at h
      next => cases h
      next hb =>
        split at h
        next hn =>
          cases h
          exact ⟨hf, hb, hn⟩
        next => cases h

namespace Congruence

variable (hR : Congruence R)
include hR

protected theorem callUser (hp : Peers R env env') {named : Bool} {frames : Frames} {name : String}
    {args : List Expr} {offset : Nat} {f : UserFunction}
    (he : Enters R env.functions ⟨named, frames, .call name args offset⟩ enter enter')
    (hf : callee env name args.length = .user f)
    (ha : ∀ e ∈ args, R _ (eval env enter frames e) (eval env' enter' frames e)) :
    R _ (callUser env enter frames f args) (callUser env' enter' frames f args) := by
  obtain ⟨hu, hn⟩ := get?_of_callee hf
  have hl : f.params.length ≤ args.length := Nat.le_of_eq (admits_arity.mp hn).symm
  match enter, enter', he with
  | none, none, _ =>
    simp only [callUser, Option.isSome_none, Bool.false_eq_true, if_false, hp.tooDeep]
    exact hR.value _
  | some run, some run', he =>
    refine hR.bindArgs .empty ha hl (fun v => hR.value v) fun s hs => ?_
    have hsite : Site.Next env.functions ⟨named, frames, .call name args offset⟩
        ⟨true, [s], f.body⟩ := .body hu fun p hp => hs p.1 (.inr ⟨p, hp, rfl⟩)
    exact hR.map (he s f.body (.single hsite)) _

protected theorem call (hp : Peers R env env') {named : Bool} {frames : Frames} {name : String}
    {args : List Expr} {offset : Nat}
    (hc : Site.SameAnswer env env' ⟨named, frames, .call name args offset⟩)
    (he : Enters R env.functions ⟨named, frames, .call name args offset⟩ enter enter')
    (here : ∀ e ∈ args, R _ (eval env enter frames e) (eval env' enter' frames e))
    (inRow : isRowScoped name → ∀ e ∈ args.tail, ∀ row,
      R _ (eval env enter (rowFrame row :: frames) e) (eval env' enter' (rowFrame row :: frames) e)) :
    R _ (eval env enter frames (.call name args offset))
      (eval env' enter' frames (.call name args offset)) := by
  rw [eval_call, eval_call]
  refine hR.bind hp.visit fun _ => ?_
  have hc : callee env name args.length = callee env' name args.length := hc
  rw [← hc]
  cases hk : callee env name args.length with
  | user f => exact hR.callUser hp he hk here
  | host h => exact hR.bind (hR.evalAll here) fun vs => hp.host name h vs (get?_of_callee_host hk)
  | fault answer => exact hR.value answer
  | builtin b =>
    refine hR.callBuiltin hp.missingArgument here fun hb => inRow ?_
    rw [isRowScoped, (builtin_of_callee hk).2.1]
    exact hb

/-- One expression, in environments that answer alike at all sites that it reaches. -/
protected theorem eval (hp : Peers R env env') {s : Site}
    (h : ∀ t, s.Reaches env.functions t → t.SameAnswer env env')
    (he : Enters R env.functions s enter enter') :
    R _ (eval env enter s.frames s.expr) (eval env' enter' s.frames s.expr) := by
  obtain ⟨named, frames, e⟩ := s
  -- The parts of an expression reach what it reaches.
  have part {s t : Site} (hn : s.Next env.functions t)
      (ih : (∀ u, t.Reaches env.functions u → u.SameAnswer env env') →
        Enters R env.functions t enter enter' →
        R _ (Formula.eval env enter t.frames t.expr) (Formula.eval env' enter' t.frames t.expr))
      (h : ∀ u, s.Reaches env.functions u → u.SameAnswer env env')
      (he : Enters R env.functions s enter enter') :
      R _ (Formula.eval env enter t.frames t.expr) (Formula.eval env' enter' t.frames t.expr) :=
    ih (fun u hu => h u (hu.head hn)) (he.next hn)
  induction e generalizing named frames with
  | number x => exact hR.map hp.visit _
  | text s => exact hR.map hp.visit _
  | boolean b => exact hR.map hp.visit _
  | name n offset =>
    refine hR.bind hp.visit fun _ => ?_
    have hn : lookup env frames n = lookup env' frames n := h _ .refl
    rw [hn]
    exact hR.value _
  | record fields ih =>
    refine hR.bind hp.visit fun _ => hR.map (hR.evalFields .empty fun p hm => ?_) _
    exact part (.field hm) (ih p hm named frames) h he
  | table items ih =>
    refine hR.bind hp.visit fun _ => hR.map (hR.evalAll fun e hm => ?_) _
    exact part (.item hm) (ih e hm named frames) h he
  | chain items ih =>
    refine hR.bind hp.visit fun _ => hR.evalChain .blank fun e hm => ?_
    exact part (.link hm) (ih e hm named frames) h he
  | unary op e ih => exact hR.bind hp.visit fun _ => hR.map (part .unary (ih named frames) h he) _
  | percent e ih => exact hR.bind hp.visit fun _ => hR.map (part .percent (ih named frames) h he) _
  | field e name ih => exact hR.bind hp.visit fun _ => hR.map (part .owner (ih named frames) h he) _
  | binary op l r ihl ihr =>
    exact hR.binary hp.visit (part .left (ihl named frames) h he)
      (part .right (ihr named frames) h he)
  | call f args offset ih =>
    refine hR.call hp (h _ .refl) he (fun e hm => ?_) fun hf e hm row => ?_
    · cases args with
      | nil => cases hm
      | cons first args =>
        obtain rfl | hm' := List.mem_cons.mp hm
        · exact part .firstArg (ih e hm named frames) h he
        · exact part (.laterArg hm') (ih e hm _ frames) h he
    · cases args with
      | nil => cases hm
      | cons first args =>
        exact part (.rowArg row hf hm) (ih e (List.mem_cons_of_mem _ hm) _ _) h he

protected theorem evalAt (hp : Peers R env env') (depth : Nat) {s : Site}
    (h : ∀ t, s.Reaches env.functions t → t.SameAnswer env env') :
    R _ (evalAt env depth s.frames s.expr) (evalAt env' depth s.frames s.expr) := by
  induction depth generalizing s with
  | zero => exact hR.eval hp h (show Enters R env.functions s none none from trivial)
  | succ depth ih =>
    refine hR.eval hp h ?_
    intro scope body hr
    exact ih (s := ⟨true, [scope], body⟩) fun t ht => h t (hr.trans ht)

protected theorem start (hp : Peers R env env') (hpause : R _ (pause env) (pause env')) {e : Expr}
    (h : ∀ t, Site.Reaches env.functions ⟨true, [], e⟩ t → t.SameAnswer env env') :
    R _ (pause env >>= fun _ => Formula.evalAt env maxCallDepth [] e)
      (pause env' >>= fun _ => Formula.evalAt env' maxCallDepth [] e) :=
  hR.bind hpause fun _ => hR.evalAt hp maxCallDepth (s := ⟨true, [], e⟩) h

end Congruence

theorem evaluate_congr (hpoll : env.poll = env'.poll) (hosts : env.hosts = .empty)
    (hd : env.faults.tooDeep = env'.faults.tooDeep)
    (hm : env.faults.missingArgument = env'.faults.missingArgument) {e : Expr}
    (h : ∀ t, Site.Reaches env.functions ⟨true, [], e⟩ t → t.SameAnswer env env') :
    evaluate env e = evaluate env' e := by
  have hpause : pause env = pause env' := by rw [pause, pause, hpoll]
  have hvisit : visit env = visit env' := by rw [visit, visit, hpause]
  have hp : Peers (fun (α : Type) (a b : Eval σ α) => a = b) env env' :=
    ⟨hvisit, fun _ _ _ hh => absurd hh (get?_ne_host hosts), hd, hm⟩
  have hs := congruence_eq.start hp hpause h
  funext world
  rw [evaluate, evaluate, hs]

end

/-- The bodies of the functions in `S` call functions in `S` only, and read only names in `D` and
their parameters. -/
structure Closed (functions : Fields UserFunction) (D S : Set String) : Prop where
  calls : ∀ f ∈ S, ∀ u, functions.get? f = some u → ∀ c ∈ u.body.calls, c ∈ S
  names : ∀ f ∈ S, ∀ u, functions.get? f = some u → ∀ n ∈ u.body.names,
    n ∈ D ∨ ∃ p ∈ u.params, p.1 = n

structure Site.Within (D S : Set String) (s : Site) : Prop where
  names : ∀ n ∈ s.expr.names, n ∈ D ∨ ∃ r ∈ s.frames, r.contains n
  calls : ∀ f ∈ s.expr.calls, f ∈ S

/-- Two environments without a host, with the same values for the names in `D` and the same
functions for those in `S`. -/
structure Alike (D S : Set String) (env env' : Environment σ) : Prop where
  hostless : env.hosts = .empty
  hostless' : env'.hosts = .empty
  faults : env.faults = env'.faults
  values : ∀ n ∈ D, lookup env [] n = lookup env' [] n
  functions : ∀ f ∈ S, env.functions.get? f = env'.functions.get? f
  closed : Closed env.functions D S

section

variable {D S : Set String} {functions : Fields UserFunction} {s t : Site} {env env' : Environment σ}

theorem Site.Within.next (h : s.Within D S) (hc : Closed functions D S) (hn : s.Next functions t) :
    t.Within D S := by
  obtain ⟨names, calls⟩ := h
  cases hn with
  | field hm =>
    exact ⟨fun n hn => names n (Expr.mem_fieldNames.mpr ⟨_, hm, hn⟩),
      fun f hf => calls f (Expr.mem_fieldCalls.mpr ⟨_, hm, hf⟩)⟩
  | item hm | link hm =>
    exact ⟨fun n hn => names n (Expr.mem_allNames.mpr ⟨_, hm, hn⟩),
      fun f hf => calls f (Expr.mem_allCalls.mpr ⟨_, hm, hf⟩)⟩
  | unary | percent | owner => exact ⟨names, calls⟩
  | left =>
    exact ⟨fun n hn => names n (List.mem_append_left _ hn),
      fun f hf => calls f (List.mem_append_left _ hf)⟩
  | right =>
    exact ⟨fun n hn => names n (List.mem_append_right _ hn),
      fun f hf => calls f (List.mem_append_right _ hf)⟩
  | firstArg =>
    exact ⟨fun n hn => names n (List.mem_append_left _ hn),
      fun f hf => calls f (List.mem_cons_of_mem _ (List.mem_append_left _ hf))⟩
  | @laterArg _ _ _ first _ _ _ hm =>
    have hm := List.mem_cons_of_mem first hm
    exact ⟨fun n hn => names n (Expr.mem_allNames.mpr ⟨_, hm, hn⟩),
      fun f hf => calls f (List.mem_cons_of_mem _ (Expr.mem_allCalls.mpr ⟨_, hm, hf⟩))⟩
  | @rowArg _ _ _ first _ _ _ row _ hm =>
    have hm := List.mem_cons_of_mem first hm
    refine ⟨fun n hn => ?_,
      fun f hf => calls f (List.mem_cons_of_mem _ (Expr.mem_allCalls.mpr ⟨_, hm, hf⟩))⟩
    obtain hD | ⟨r, hr, hrn⟩ := names n (Expr.mem_allNames.mpr ⟨_, hm, hn⟩)
    · exact .inl hD
    · exact .inr ⟨r, List.mem_cons_of_mem _ hr, hrn⟩
  | @body _ _ f _ _ u scope hu hs =>
    have hf : f ∈ S := calls f (List.mem_cons_self ..)
    refine ⟨fun n hn => ?_, hc.calls f hf u hu⟩
    obtain hD | ⟨p, hp, rfl⟩ := hc.names f hf u hu n hn
    · exact .inl hD
    · exact .inr ⟨scope, by simp, hs p hp⟩

theorem Site.Within.reaches (h : s.Within D S) (hc : Closed functions D S)
    (hr : s.Reaches functions t) : t.Within D S := by
  induction hr with
  | refl => exact h
  | tail _ hn ih => exact ih.next hc hn

theorem lookup_of_contains {frames : Frames} {n : String} (h : ∃ r ∈ frames, r.contains n) :
    lookup env frames n = lookup env' frames n := by
  obtain ⟨r, hr, hn⟩ := h
  have hs : (frames.findSome? (·.get? n)).isSome := by
    rw [List.findSome?_isSome_iff]
    exact ⟨r, hr, hn⟩
  obtain ⟨v, hv⟩ := Option.isSome_iff_exists.mp hs
  simp only [lookup, hv]

theorem lookup_congr (h : ∀ n ∈ D, lookup env [] n = lookup env' [] n) {frames : Frames} {n : String}
    (hn : n ∈ D ∨ ∃ r ∈ frames, r.contains n) : lookup env frames n = lookup env' frames n := by
  by_cases hc : ∃ r ∈ frames, r.contains n
  · exact lookup_of_contains hc
  · have hs : frames.findSome? (·.get? n) = none := by
      rw [List.findSome?_eq_none_iff]
      intro r hr
      have : ¬ r.contains n := fun hrn => hc ⟨r, hr, hrn⟩
      simpa [Fields.contains] using this
    have hD := h n (hn.resolve_right hc)
    simpa only [Formula.lookup, hs, List.findSome?_nil] using hD

theorem Alike.sameAnswer (h : Alike D S env env') (hs : s.Within D S) : s.SameAnswer env env' := by
  obtain ⟨named, frames, e⟩ := s
  cases e with
  | name n offset => exact lookup_congr h.values (hs.names n (List.mem_cons_self ..))
  | call f args offset =>
    change callee env f args.length = callee env' f args.length
    rw [callee, callee, h.functions f (hs.calls f (List.mem_cons_self ..)), h.hostless,
      h.hostless', h.faults]
  | _ => trivial

theorem Alike.peers (h : Alike D S env env') (hv : R _ (visit env) (visit env')) :
    Peers R env env' :=
  ⟨hv, fun _ _ _ hh => absurd hh (get?_ne_host h.hostless), by rw [h.faults], by rw [h.faults]⟩

variable {e : Expr} (hn : ∀ n ∈ e.names, n ∈ D) (hc : ∀ f ∈ e.calls, f ∈ S)
include hn hc

theorem Alike.sameAnswers (h : Alike D S env env') (t : Site)
    (ht : Site.Reaches env.functions ⟨true, [], e⟩ t) : t.SameAnswer env env' := by
  have hs : Site.Within D S ⟨true, [], e⟩ := ⟨fun n hm => .inl (hn n hm), hc⟩
  exact h.sameAnswer (hs.reaches h.closed ht)

theorem Alike.evaluate_eq (h : Alike D S env env') (hp : env.poll = env'.poll) :
    Formula.evaluate env e = Formula.evaluate env' e :=
  evaluate_congr hp h.hostless (by rw [h.faults]) (by rw [h.faults]) (h.sameAnswers hn hc)

/-- Evaluation finishes with the same value in both environments, whatever the worlds are. -/
theorem Alike.evaluate (h : Alike D S env env') (hp : env.poll = .never)
    (hp' : env'.poll = .never) :
    ∃ v, ∀ world, (Formula.evaluate env e world).1 = .ok v ∧
      (Formula.evaluate env' e world).1 = .ok v := by
  have hpause : Agree (pause env) (pause env') := ⟨(), yields_pause hp, yields_pause hp'⟩
  have hvisit : Agree (visit env) (visit env') := ⟨(), yields_visit hp, yields_visit hp'⟩
  obtain ⟨v, hv, hv'⟩ := congruence_agree.start (h.peers (R := fun _ a b => Agree a b) hvisit)
    hpause (h.sameAnswers hn hc)
  exact ⟨v, fun world => ⟨hv ⟨0, world⟩, hv' ⟨0, world⟩⟩⟩

end

end FormulaShell.Formula
