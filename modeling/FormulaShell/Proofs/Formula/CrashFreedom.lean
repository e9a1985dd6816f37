import FormulaShell.Proofs.Formula.Aggregates
import FormulaShell.Proofs.Formula.Guards
import FormulaShell.Proofs.Formula.Lasting

namespace FormulaShell.Formula

variable {σ α β : Type}

/-- The first evaluation goes as the second does, unless there is a table that no memory holds. -/
def Follows (a : Crashing σ α) (b : Eval σ α) : Prop :=
  ∀ p, a.run.run.run p = ((b.run.run p).1.map .ok, (b.run.run p).2) ∨
    ∃ c q, c.Oversized ∧ a.run.run.run p = (.ok (.error c), q)

namespace Follows

theorem pure (v : α) : Follows (σ := σ) (Pure.pure v) (Pure.pure v) := fun _ => .inl rfl

theorem lift (b : Eval σ α) : Follows (liftM b) b := by
  intro p
  have hlift : (liftM b : Crashing σ α).run = b >>= fun v => Pure.pure (.ok v) := rfl
  refine .inl ?_
  rw [hlift, run_bind]
  rcases b.run.run p with ⟨i | v, q⟩ <;> rfl

theorem bind_of_returns {a : Crashing σ α} {b : Eval σ α} {f : α → Crashing σ β}
    {g : α → Eval σ β} {P : α → Prop} (h : Follows a b) (hP : Returns P b)
    (hf : ∀ v, P v → Follows (f v) (g v)) : Follows (a >>= f) (b >>= g) := by
  intro p
  have hv := hP p
  rw [ExceptT.run_bind, run_bind, run_bind]
  obtain ha | ⟨c, q, hc, ha⟩ := h p
  · rw [ha]
    generalize b.run.run p = o at hv
    obtain ⟨i | v, q⟩ := o
    · exact .inl rfl
    · exact hf v (hv v rfl) q
  · rw [ha]
    exact .inr ⟨c, q, hc, rfl⟩

theorem bind {a : Crashing σ α} {b : Eval σ α} {f : α → Crashing σ β} {g : α → Eval σ β}
    (h : Follows a b) (hf : ∀ v, Follows (f v) (g v)) : Follows (a >>= f) (b >>= g) :=
  h.bind_of_returns (P := fun _ => True) (fun _ _ _ => trivial) fun v _ => hf v

theorem map {a : Crashing σ α} {b : Eval σ α} (h : Follows a b) (f : α → β) :
    Follows (a >>= fun v => Pure.pure (f v)) (b >>= fun v => Pure.pure (f v)) :=
  h.bind fun v => .pure (f v)

theorem of_reached {r : Except Crash α} {v : α} {f : α → Crashing σ β} {b : Eval σ β}
    (hr : Reached r v) (h : Follows (f v) b) : Follows (liftM r >>= f) b := by
  obtain rfl | ⟨c, hc, rfl⟩ := hr
  · exact h
  · exact fun p => .inr ⟨c, p, hc, rfl⟩

theorem ok {r : Except Crash α} {v : α} {f : α → Crashing σ β} {b : Eval σ β} (hr : r = .ok v)
    (h : Follows (f v) b) : Follows (liftM r >>= f) b := of_reached (.inl hr) h

end Follows

section

variable (env : Environment σ) (enter : Enter σ)

/-- A deferred argument is that of an expression, whatever the scopes are. -/
def Defers (d : Deferred σ) (e : Expr) : Prop :=
  ∀ frames, Follows (d frames) (eval env enter frames e)

end

section

variable {env : Environment σ} {enter : Enter σ} {frames : Frames} {ds : List (Deferred σ)}
  {es : List Expr}

theorem follows_all (h : List.Forall₂ (Defers env enter) ds es) :
    Follows (Crashing.all frames ds) (evalAll env enter frames es) := by
  induction h with
  | nil => exact .pure []
  | cons hd _ ih => exact (hd frames).bind fun v => ih.map (v :: ·)

theorem follows_fields {ds : List (String × Deferred σ)} {es : List (String × Expr)}
    (h : List.Forall₂ (fun d e => d.1 = e.1 ∧ Defers env enter d.2 e.2) ds es) (done : Record) :
    Follows (Crashing.fields frames done ds) (evalFields env enter frames done es) := by
  induction h generalizing done with
  | nil => exact .pure done
  | @cons d e _ _ hd _ ih =>
    obtain ⟨n, d⟩ := d
    obtain ⟨_, e⟩ := e
    obtain ⟨rfl, hd⟩ := hd
    exact (hd frames).bind fun v => ih _

theorem follows_chain (h : List.Forall₂ (Defers env enter) ds es) (last : Value) :
    Follows (Crashing.chain frames last ds) (evalChain env enter frames last es) := by
  induction h generalizing last with
  | nil => exact .pure last
  | cons hd _ ih =>
    refine (hd frames).bind fun v => ?_
    split
    · exact .pure v
    · exact ih v

theorem follows_conditions (h : List.Forall₂ (Defers env enter) ds es) :
    Follows (Crashing.conditions frames ds) (evalConditions env enter frames es) := by
  induction h with
  | nil => exact .pure _
  | cons hd _ ih =>
    refine (hd frames).bind fun v => ?_
    obtain m | (_ | _) := truth v
    · exact .pure _
    · exact .pure _
    · exact ih

theorem follows_bindArgs (h : List.Forall₂ (Defers env enter) ds es) (scope : Record)
    (params : List (String × Kind)) :
    Follows (Crashing.bindArgs frames scope params ds)
      (bindArgs env enter frames scope params es) := by
  induction h generalizing scope params with
  | nil => cases params <;> exact .pure _
  | cons hd _ ih =>
    cases params with
    | nil => exact .pure _
    | cons q params =>
      refine (hd frames).bind fun v => ?_
      split
      · exact .pure _
      · cases coerce v q.2 with
        | error m => exact .pure _
        | ok w => exact ih _ params

theorem follows_overRows {t d : Deferred σ} {e : Expr} (hd : Defers env enter d e) (rows : Table) :
    Follows (Crashing.overRows frames (t :: d :: ds) rows)
      (rows.mapM fun row => eval env enter (rowFrame row :: frames) e) := by
  induction rows with
  | nil => exact .pure []
  | cons row rows ih =>
    rw [List.mapM_cons]
    exact .ok rfl <| (hd _).bind fun v => ih.map (v :: ·)

theorem follows_filterRows {t : Deferred σ} (h : List.Forall₂ (Defers env enter) ds es)
    (kept rows : Table) : Follows (Crashing.filterRows frames (t :: ds) kept rows)
      (filterRows (fun row => evalConditions env enter (rowFrame row :: frames) es) kept rows) := by
  induction rows generalizing kept with
  | nil => exact .pure _
  | cons row rows ih =>
    refine .ok (v := ds) (if_pos (Nat.le_add_left 1 _)) <| (follows_conditions h).bind fun r => ?_
    obtain m | (_ | _) := r
    · exact .pure _
    · exact ih kept
    · exact ih (row :: kept)

/-- The position has gone past the conditions and values that did not decide. -/
theorem follows_ifFrom : ∀ {ds : List (Deferred σ)} {es : List Expr} (pre : List (Deferred σ)),
    List.Forall₂ (Defers env enter) ds es →
      Follows (Crashing.ifFrom frames (pre ++ ds) pre.length) (evalIf env enter frames es)
  | _, _, pre, .nil => by
    rw [Crashing.ifFrom, if_neg (by simp), List.getElem?_append_right le_rfl]
    simp only [Nat.sub_self]
    exact .pure _
  | [_], [_], pre, .cons hd .nil => by
    rw [Crashing.ifFrom, if_neg (by simp), List.getElem?_append_right le_rfl]
    simp only [Nat.sub_self]
    exact hd frames
  | c :: v :: ds, _ :: _ :: _, pre, .cons hc (.cons hv h) => by
    have hcond : Crashing.position (pre ++ c :: v :: ds) pre.length = .ok c := by
      simp [Crashing.position]
    have hvalue : Crashing.position (pre ++ c :: v :: ds) (pre.length + 1) = .ok v := by
      simp [Crashing.position]
    rw [Crashing.ifFrom, if_pos (by simp), evalIf]
    refine .ok hcond <| (hc frames).bind fun x => ?_
    obtain m | (_ | _) := truth x
    · exact .pure _
    · have hrest := follows_ifFrom (pre ++ [c, v]) h
      rw [List.append_assoc, List.length_append] at hrest
      exact hrest
    · exact .ok hvalue (hv frames)

theorem follows_collect {t : Deferred σ} {e : Expr} (ht : Defers env enter t e)
    (h : List.Forall₂ (Defers env enter) ds es) (name : String) :
    Follows (Crashing.collect frames name (t :: ds)) (do
      let first ← eval env enter frames e
      collect env enter frames name first es) := by
  refine .ok rfl <| (ht frames).bind fun first => ?_
  cases first with
  | table rows =>
    obtain _ | ⟨hd, _ | ⟨hd', h⟩⟩ := h
    · refine .ok (Crashing.isColumn_eq rows) ?_
      rw [collect]
      split <;> exact .pure _
    · exact (follows_overRows hd rows).map _
    · rw [collect, ← (List.Forall₂.cons hd' h).length_eq]
      · exact .pure _
      · exact List.cons_ne_nil _ _
  | _ =>
    rw [collect_of_not_table (by simp [Value.kind])]
    exact .ok (if_pos (Nat.le_add_left 1 _)) <| (follows_all h).map _

theorem follows_aggregate {t : Deferred σ} {e : Expr} (ht : Defers env enter t e)
    (h : List.Forall₂ (Defers env enter) ds es) (name : String)
    (result : Except String (List Numeric) → Value) :
    Follows (do return result (← Crashing.collect frames name (t :: ds))) (do
      let first ← eval env enter frames e
      return result (← collect env enter frames name first es)) := by
  have hcollect : Follows (Crashing.collect frames name (t :: ds)) _ := follows_collect ht h name
  have hresult := hcollect.map result
  rwa [bind_assoc] at hresult

theorem isStrict_of_implementation {b : Builtin} {f : List Value → Attempt Value}
    (hb : Crashing.implementation (σ := σ) b = .strict f) : b.isStrict := by
  cases b <;> first | rfl | cases hb

theorem follows_strict {b : Builtin} {f : List Value → Attempt Value}
    (hb : Crashing.implementation (σ := σ) b = .strict f) (hn : b.arity.admits es.length)
    (h : List.Forall₂ (Defers env enter) ds es) :
    Follows (Crashing.callBuiltin frames b ds) (callBuiltin env enter frames b es) := by
  have hlength : Returns (fun vs => vs.length = es.length) (evalAll env enter frames es) :=
    (returns_evalAll (Q := fun _ _ => True) fun _ _ _ _ _ => trivial).imp
      fun vs hvs => hvs.length_eq
  rw [Crashing.callBuiltin, hb, callBuiltin_of_isStrict (isStrict_of_implementation hb)]
  refine (follows_all h).bind_of_returns hlength fun vs hvs => ?_
  rw [applyStrict]
  cases (if b = .isError then none else firstError? vs) with
  | some e => exact .pure e
  | none =>
    obtain ⟨r, hr, hreached⟩ := Crashing.reached_result hb (hvs ▸ hn)
    simp only [hr]
    exact .of_reached hreached (.pure _)

theorem follows_deferred {b : Builtin} {f : Frames → List (Deferred σ) → Crashing σ Value}
    (hb : Crashing.implementation b = .deferred f) (hn : b.arity.admits es.length)
    (h : List.Forall₂ (Defers env enter) ds es) :
    Follows (Crashing.callBuiltin frames b ds) (callBuiltin env enter frames b es) := by
  rw [Crashing.callBuiltin, hb]
  cases b with
  | ifThen =>
    cases hb
    exact follows_ifFrom [] h
  | forAll =>
    cases hb
    obtain _ | ⟨ht, _ | ⟨hd, h⟩⟩ := h
    · cases hn
    · cases hn
    refine .ok rfl <| (ht frames).bind fun v => ?_
    cases rows "ForAll" v with
    | error m => exact .pure _
    | ok rows => exact (follows_overRows hd rows).map _
  | filter =>
    cases hb
    obtain _ | ⟨ht, h⟩ := h
    · cases hn
    refine .ok rfl <| (ht frames).bind fun v => ?_
    cases rows "Filter" v with
    | error m => exact .pure _
    | ok rows => exact (follows_filterRows h [] rows).map _
  | sum =>
    cases hb
    obtain _ | ⟨ht, h⟩ := h
    · cases hn
    rw [funext Crashing.total_eq]
    exact follows_aggregate ht h "Sum" fun ns => valueOf (ns.bind total)
  | max =>
    cases hb
    obtain _ | ⟨ht, h⟩ := h
    · cases hn
    exact follows_aggregate ht h "Max" fun ns => valueOf (ns.map (extremeValue .gt))
  | min =>
    cases hb
    obtain _ | ⟨ht, h⟩ := h
    · cases hn
    exact follows_aggregate ht h "Min" fun ns => valueOf (ns.map (extremeValue .lt))
  | _ => cases hb

theorem follows_callBuiltin {b : Builtin} (hn : b.arity.admits es.length)
    (h : List.Forall₂ (Defers env enter) ds es) :
    Follows (Crashing.callBuiltin frames b ds) (callBuiltin env enter frames b es) := by
  cases hb : Crashing.implementation (σ := σ) b with
  | strict f => exact follows_strict hb hn h
  | deferred f => exact follows_deferred hb hn h

theorem follows_callHost (name : String) (host : HostFunction σ)
    (h : List.Forall₂ (Defers env enter) ds es) :
    Follows (Crashing.callHost env frames name host ds) (do
      let vs ← evalAll env enter frames es
      applyHost env name host vs) :=
  (follows_all h).bind fun _ => .lift _

variable {enter' : Option (Record → Expr → Crashing σ Value)}
  (henter : Option.Rel (fun run' run => ∀ scope e, Follows (run' scope e) (run scope e))
    enter' enter)
include henter

theorem follows_callUser (f : UserFunction) (h : List.Forall₂ (Defers env enter) ds es) :
    Follows (Crashing.callUser env enter' frames f ds) (callUser env enter frames f es) := by
  cases henter with
  | none => exact .pure _
  | some hrun =>
    refine (follows_bindArgs h .empty f.params).bind fun scope => ?_
    cases scope with
    | error v => exact .pure v
    | ok scope => exact (hrun scope f.body).map _

theorem follows_call {name : String} (h : List.Forall₂ (Defers env enter) ds es) :
    Follows (Crashing.call env enter' frames name ds (callee env name es.length))
      ((callee env name es.length).call env enter frames name es) := by
  cases hc : callee env name es.length with
  | user f => exact follows_callUser henter f h
  | host host => exact follows_callHost name host h
  | builtin b => exact follows_callBuiltin ((builtin_of_callee hc).2.2) h
  | fault answer => exact .pure answer

theorem follows_eval (frames : Frames) (e : Expr) :
    Follows (Crashing.eval env enter' frames e) (eval env enter frames e) := by
  have hvisit : Follows (liftM (visit env)) (visit env) := .lift _
  have hall {items : List Expr} (h : ∀ e ∈ items, ∀ frames,
      Follows (Crashing.eval env enter' frames e) (eval env enter frames e)) :
      List.Forall₂ (Defers env enter) (Crashing.deferAll env enter' items) items := by
    induction items with
    | nil => exact .nil
    | cons e items ih => exact .cons (h e (by simp)) (ih fun a ha => h a (by simp [ha]))
  induction e generalizing frames with
  | number x | text s | boolean b | name n offset =>
    rw [Crashing.eval, eval]
    exact hvisit.bind fun _ => .pure _
  | record fields ih =>
    rw [Crashing.eval, eval]
    refine hvisit.bind fun _ => (follows_fields ?_ .empty).map _
    induction fields with
    | nil => exact .nil
    | cons p fields ihf =>
      exact .cons ⟨rfl, ih p (by simp)⟩ (ihf fun q hq => ih q (by simp [hq]))
  | table items ih =>
    rw [Crashing.eval, eval]
    exact hvisit.bind fun _ => (follows_all (hall ih)).map _
  | unary op e ih =>
    rw [Crashing.eval, eval]
    exact hvisit.bind fun _ => (ih frames).map _
  | percent e ih =>
    rw [Crashing.eval, eval]
    simp only [Crashing.calculate_eq]
    exact hvisit.bind fun _ => (ih frames).map _
  | field e name ih =>
    rw [Crashing.eval, eval]
    exact hvisit.bind fun _ => (ih frames).map _
  | binary op l r ihl ihr =>
    cases op with
    | and =>
      rw [Crashing.eval, eval]
      refine hvisit.bind fun _ => (ihl frames).bind fun v => ?_
      obtain m | (_ | _) := truth v
      · exact .pure _
      · exact .pure _
      · exact (ihr frames).map _
    | or =>
      rw [Crashing.eval, eval]
      refine hvisit.bind fun _ => (ihl frames).bind fun v => ?_
      obtain m | (_ | _) := truth v
      · exact .pure _
      · exact (ihr frames).map _
      · exact .pure _
    | _ =>
      rw [Crashing.eval, eval]
      · simp only [Crashing.binary_eq]
        exact hvisit.bind fun _ => (ihl frames).bind fun a => (ihr frames).map _
      all_goals decide
  | chain items ih =>
    rw [Crashing.eval, eval]
    exact hvisit.bind fun _ => follows_chain (hall ih) .blank
  | call f args offset ih =>
    rw [Crashing.eval, eval_call]
    exact hvisit.bind fun _ => follows_call henter (hall ih)

end

theorem follows_evalAt (env : Environment σ) (depth : Nat) (frames : Frames) (e : Expr) :
    Follows (Crashing.evalAt env depth frames e) (evalAt env depth frames e) := by
  induction depth generalizing frames e with
  | zero => exact follows_eval .none frames e
  | succ depth ih => exact follows_eval (.some fun scope body => ih [scope] body) frames e

/-- Whatever the expression is, checked or not, and whatever names, functions and values there are,
an evaluation ends without a crash, as `evaluate` does. The exception is a table of `2 ^ 53` rows or
more, which no memory holds. -/
theorem evaluate_without_crash (env : Environment σ) (e : Expr) (world : σ) :
    Crashing.evaluate env e world = ((evaluate env e world).1.map .ok, (evaluate env e world).2) ∨
      ∃ c world', c.Oversized ∧ Crashing.evaluate env e world = (.ok (.error c), world') := by
  have h := (Follows.lift (pause env)).bind fun _ => follows_evalAt env maxCallDepth [] e
  obtain hrun | ⟨c, q, hc, hrun⟩ := h ⟨0, world⟩
  · left
    rw [Crashing.evaluate, hrun]
    rfl
  · right
    refine ⟨c, q.world, hc, ?_⟩
    rw [Crashing.evaluate, hrun]

end FormulaShell.Formula
