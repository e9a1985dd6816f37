import FormulaShell.Proofs.Formula.Quiet
import FormulaShell.Proofs.Workbook.Dependency
import FormulaShell.Value.Render
import Mathlib.Data.List.Forall2

namespace FormulaShell

open FormulaShell.Formula

variable {σ : Type}

namespace Formula

/-- The scope that values make for parameters, or what stops them. -/
def bindValues (scope : Record) : List (String × Kind) → List Value → Except Value Record
  | (p, k) :: params, v :: vs =>
    if v.isError then .error v
    else
      match coerce v k with
      | .error m => .error (.error m)
      | .ok w => bindValues (scope.insert p w) params vs
  | _, _ => .ok scope

variable {env : Environment σ} {enter : Enter σ} {frames : Frames}

theorem yields_bindArgs {args : List Expr} {vs : List Value}
    (h : List.Forall₂ (fun e v => Yields (eval env enter frames e) v) args vs) (scope : Record)
    (params : List (String × Kind)) :
    Yields (bindArgs env enter frames scope params args) (bindValues scope params vs) := by
  induction h generalizing scope params with
  | nil => cases params <;> exact yields_pure _
  | @cons e v args vs he _ ih =>
    cases params with
    | nil => exact yields_pure _
    | cons p params =>
      rw [bindArgs, bindValues]
      refine he.bind ?_
      split
      · exact yields_pure _
      · cases coerce v p.2 with
        | error m => exact yields_pure _
        | ok w => exact ih (scope.insert p.1 w) params

section

variable {name : String} {u : UserFunction} {args : List Expr} (hp : env.poll = .never)
  (hu : env.functions.get? name = some u)
include hp hu

theorem yields_call_of_not_admits (depth : Nat) (frames : Frames)
    (hn : ¬ u.arity.admits args.length) (offset : Nat) :
    Yields (evalAt env depth frames (.call name args offset))
      (env.faults.wrongArity u.name u.arity args.length) := by
  have hcall (enter : Enter σ) : Yields (eval env enter frames (.call name args offset))
      (env.faults.wrongArity u.name u.arity args.length) := by
    rw [eval_call, callee_of_not_admits hu hn]
    exact (yields_visit hp).bind (yields_pure _)
  cases depth <;> exact hcall _

theorem yields_call_too_deep (frames : Frames) (hn : u.arity.admits args.length) (offset : Nat) :
    Yields (evalAt env 0 frames (.call name args offset)) (env.faults.tooDeep u.name) := by
  rw [evalAt, eval_call, callee_of_admits hu hn]
  exact (yields_visit hp).bind (yields_pure _)

end

end Formula

namespace Workbook

variable (w : Workbook σ) (poll : Poll σ) (depth : Nat) (u : UserFunction)

/-- What a call comes to with its arguments in a scope, or after the failure of one, if there are
no names but the parameters and the workbook's. -/
def returned : Except Value Record → Eval σ Value
  | .error v => pure v
  | .ok scope => do
    return resultOf u (← evalAt (w.environment .empty poll) depth [scope] u.body)

/-- For the outer names of the function and of those that it calls, the bindings and behind them
the workbook have these values. -/
def Shows (name : String) (bindings : Record) (values : Fields Value) : Prop :=
  ∀ n ∈ w.dependencies (.call name [] 0),
    (bindings.get? n).or (w.values.get? n) = values.get? n

variable {w u} {name : String} {bindings : Record} {values : Fields Value}

theorem lookup_environment (w : Workbook σ) (bindings : Record) (poll : Poll σ) (n : String) :
    lookup (w.environment bindings poll) [] n =
      ((bindings.get? n).or (w.values.get? n)).getD (Faults.standard.unknownName n) := by
  simp only [lookup, List.findSome?_nil, environment]
  cases bindings.get? n <;> rfl

theorem Shows.evalAt_body (h : w.Shows name bindings values)
    (hu : w.functions.get? name = some u) {scope : Record}
    (hscope : ∀ p ∈ u.params, scope.contains p.1) :
    evalAt (w.environment bindings poll) depth [scope] u.body =
      evalAt ({ w with values := values }.environment .empty poll) depth [scope] u.body := by
  obtain ⟨-, S, hcall, hclosed⟩ := w.covers_dependencies (.call name [] 0)
  have hname : name ∈ S := hcall name (List.mem_cons_self ..)
  have hwithin :
      Site.Within {n | n ∈ w.dependencies (.call name [] 0)} S ⟨true, [scope], u.body⟩ := by
    refine ⟨fun n hn => ?_, hclosed.calls name hname u hu⟩
    obtain hD | ⟨p, hp, rfl⟩ := hclosed.names name hname u hu n hn
    · exact .inl hD
    · exact .inr ⟨scope, List.mem_singleton_self scope, hscope p hp⟩
  have hlookup : ∀ n ∈ {n | n ∈ w.dependencies (.call name [] 0)},
      lookup (w.environment bindings poll) [] n =
        lookup ({ w with values := values }.environment .empty poll) [] n := by
    intro n hn
    rw [lookup_environment, lookup_environment, h n hn]
    rfl
  have hpeers : Peers (fun (α : Type) (a b : Eval σ α) => a = b) (w.environment bindings poll)
      ({ w with values := values }.environment .empty poll) :=
    ⟨rfl, fun _ _ _ _ => rfl, rfl, rfl⟩
  refine congruence_eq.evalAt hpeers depth (s := ⟨true, [scope], u.body⟩) fun t ht => ?_
  obtain ⟨named, frames, e⟩ := t
  have ht := hwithin.reaches hclosed ht
  cases e with
  | name n offset => exact lookup_congr hlookup (ht.names n (List.mem_cons_self ..))
  | call f args offset => exact rfl
  | _ => trivial

theorem Shows.evalAt_call (h : w.Shows name bindings values)
    (hu : w.functions.get? name = some u) (frames : Frames) {args : List Expr}
    (hargs : args.length = u.params.length) (offset : Nat) :
    let env := w.environment bindings poll
    let w' := { w with values := values }
    evalAt env (depth + 1) frames (.call name args offset) = (do
      visit env
      let scope ← bindArgs env (some fun scope body => evalAt env depth [scope] body) frames .empty
        u.params args
      w'.returned poll depth u scope) := by
  intro env w'
  rw [evalAt, eval_call, callee_of_admits hu (admits_arity.mpr hargs)]
  refine bind_congr fun _ => ?_
  refine congruence_eq.bindArgs .empty (fun e _ => rfl) hargs.ge (fun v => rfl) fun s hs => ?_
  have hscope : ∀ p ∈ u.params, s.contains p.1 := fun p hp => hs p.1 (.inr ⟨p, hp, rfl⟩)
  rw [finishCall, h.evalAt_body poll depth hu hscope]
  rfl

theorem exists_yields_returned (hosts : w.hosts = .empty) (scope : Except Value Record) :
    ∃ v, Yields (w.returned .never depth u scope) v := by
  cases scope with
  | error v => exact ⟨v, yields_pure v⟩
  | ok scope =>
    have hquiet : (w.environment .empty .never).Quiet := ⟨rfl, hosts⟩
    obtain ⟨v, hv⟩ := hquiet.exists_yields depth [scope] u.body
    rw [← evalAt_eq] at hv
    exact ⟨resultOf u v, hv.bind (yields_pure _)⟩

theorem shows_values (h : ∀ n ∈ w.dependencies (.call name [] 0), bindings.get? n = none) :
    w.Shows name bindings w.values := by
  intro n hn
  rw [h n hn, Option.none_or]

/-- The arguments are evaluated in the caller's scopes and bindings, and the body sees nothing of
them but, in place of the workbook's values, what the bindings have for the outer names. So a call
with values for its arguments has one value for all callers whose bindings have none of these
names, at any depth and with any number of arguments. -/
theorem call_hygienic (w : Workbook σ) {name : String} {u : UserFunction}
    (hu : w.functions.get? name = some u) (values : Fields Value) :
    (∀ poll depth bindings, w.Shows name bindings values →
      ∀ frames args offset, args.length = u.params.length →
        let env := w.environment bindings poll
        let w' := { w with values := values }
        evalAt env (depth + 1) frames (.call name args offset) = (do
          visit env
          let scope ← bindArgs env (some fun scope body => evalAt env depth [scope] body) frames
            .empty u.params args
          w'.returned poll depth u scope)) ∧
    (w.hosts = .empty → ∀ depth, ∃ answer : List Value → Value,
      ∀ bindings, w.Shows name bindings values → ∀ frames args vs offset,
        let env := w.environment bindings .never
        List.Forall₂ (fun e v => Yields (evalAt env depth frames e) v) args vs →
        Yields (evalAt env depth frames (.call name args offset)) (answer vs)) := by
  refine ⟨fun poll depth bindings h frames args offset hargs =>
    h.evalAt_call poll depth hu frames hargs offset, fun hosts depth => ?_⟩
  have hwrong (bindings : Record) (frames : Frames) {args : List Expr} {vs : List Value}
      (hlength : args.length = vs.length) (hn : ¬ u.arity.admits vs.length) (offset : Nat) :
      Yields (evalAt (w.environment bindings .never) depth frames (.call name args offset))
        (Faults.standard.wrongArity u.name u.arity vs.length) := by
    rw [← hlength] at hn ⊢
    exact yields_call_of_not_admits rfl hu depth frames hn offset
  cases depth with
  | zero =>
    refine ⟨fun vs => if u.arity.admits vs.length then Faults.standard.tooDeep u.name
      else Faults.standard.wrongArity u.name u.arity vs.length, ?_⟩
    intro bindings _ frames args vs offset env hargs
    have hlength := hargs.length_eq
    beta_reduce
    split
    next hn => exact yields_call_too_deep rfl hu frames (hlength ▸ hn) offset
    next hn => exact hwrong bindings frames hlength hn offset
  | succ depth =>
    have hanswer := fun scope =>
      ({ w with values := values } : Workbook σ).exists_yields_returned (u := u) depth hosts scope
    choose answer hanswer using hanswer
    refine ⟨fun vs => if u.arity.admits vs.length then answer (bindValues .empty u.params vs)
      else Faults.standard.wrongArity u.name u.arity vs.length, ?_⟩
    intro bindings h frames args vs offset env hargs
    have hlength := hargs.length_eq
    beta_reduce
    split
    next hn =>
      have hparams : args.length = u.params.length := admits_arity.mp (hlength ▸ hn)
      rw [h.evalAt_call .never depth hu frames hparams offset]
      exact (yields_visit rfl).bind ((yields_bindArgs hargs .empty u.params).bind (hanswer _))
    next hn => exact hwrong bindings frames hlength hn offset

def evenCaller : Record := ⟨[("n", .text "one"), ("x", .number 3.0)]⟩

def evenRow : Record := ⟨[("Value", .number 2.0), ("flag", .boolean false)]⟩

theorem even_hygienic : ∃ u, parity.functions.get? "Even" = some u ∧
    parity.Shows "Even" evenCaller parity.values ∧ parity.hosts = .empty ∧
    ∃ answer : List Value → Value,
      Yields (evalAt (parity.environment evenCaller .never) maxCallDepth [rowFrame evenRow]
        (.call "Even" [.name "Value" 0] 0)) (answer [.number 2.0]) ∧
      Yields (evalAt (parity.environment .empty .never) maxCallDepth []
        (.call "Even" [.number 2.0] 0)) (answer [.number 2.0]) := by
  obtain ⟨u, hu⟩ := Option.isSome_iff_exists.mp
    (show (parity.functions.get? "Even").isSome by decide +kernel)
  have hd : parity.dependencies (.call "Even" [] 0) = ["flag"] := by decide +kernel
  have hcaller : parity.Shows "Even" evenCaller parity.values := shows_values fun n hn => by
    rw [hd, List.mem_singleton] at hn
    subst hn
    rfl
  have hempty : parity.Shows "Even" .empty parity.values := shows_values fun _ _ => rfl
  have hosts : parity.hosts = .empty :=
    congrArg Fields.mk (List.isEmpty_iff.mp (by decide +kernel))
  obtain ⟨answer, h⟩ := (call_hygienic parity hu parity.values).2 hosts maxCallDepth
  refine ⟨u, hu, hcaller, hosts, answer, h _ hcaller _ _ _ _ ?_, h _ hempty _ _ _ _ ?_⟩
  · exact .cons ((yields_visit rfl).bind (yields_pure _)) .nil
  · exact .cons ((yields_visit rfl).bind (yields_pure _)) .nil

def mirror : Workbook Unit :=
  (defineFunctions { empty with values := .ofList [("g", .number 1.0)] }
    "F(): Number = g").toOption.getD .empty

/-- The body of the function reads the caller's binding, for which it was not checked. -/
theorem binding_seen_by_body :
    (mirror.evaluate "F()" .empty .never ()).1.toOption.map Value.canonical = some "1" ∧
    (mirror.evaluate "F()" ⟨[("g", .number 5.0)]⟩ .never ()).1.toOption.map Value.canonical =
      some "5" := by
  decide +kernel

end Workbook

end FormulaShell
