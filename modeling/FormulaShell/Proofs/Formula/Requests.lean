import FormulaShell.Proofs.Formula.Plan

namespace FormulaShell.Formula

variable {σ α β : Type}

namespace Request

def Allows (roomy : Bool) : (r : Request σ) → r.Answer → Prop
  | room, b => b = roomy
  | _, _ => True

/-- The request is for something smaller than the expression, or outside it. A body is asked for
only when there is room. -/
def Within (e : Expr) (roomy : Bool) : Request σ → Prop
  | part _ t => sizeOf t < sizeOf e
  | body .. => roomy = true
  | _ => True

end Request

namespace Plan

/-- Every request is one of `P`, if there is always room, or never. -/
def Only (P : Request σ → Prop) (roomy : Bool) : Plan σ α → Prop
  | done _ => True
  | ask r next => P r ∧ ∀ x, r.Allows roomy x → (next x).Only P roomy

variable {P : Request σ → Prop} {roomy : Bool}

theorem Only.bind {a : Plan σ α} {f : α → Plan σ β} (ha : a.Only P roomy)
    (hf : ∀ x, (f x).Only P roomy) : (a >>= f).Only P roomy := by
  induction a with
  | done a => exact hf a
  | ask r next ih => exact ⟨ha.1, fun x hx => ih x (ha.2 x hx)⟩

theorem Only.map {a : Plan σ α} (ha : a.Only P roomy) (f : α → β) :
    (a >>= fun x => pure (f x)).Only P roomy := ha.bind fun _ => trivial

theorem only_part {frames : Frames} {e : Expr} (h : P (.part frames e)) :
    (part frames e).Only P roomy := ⟨h, fun _ _ => trivial⟩

variable {value value' : Frames → Expr → Eval σ Value} {enter enter' : Enter σ}
  {p q : Progress σ} {r : Request σ}

theorem mem_asked {t : Request σ × Progress σ} {next : r.Answer → Plan σ α} :
    t ∈ (ask r next).asked value enter p ↔ t = (r, p) ∨
      ∃ x p', Finishes (r.answer value enter) p x p' ∧ t ∈ (next x).asked value enter p' := by
  rw [asked, List.mem_cons]
  refine or_congr_right ?_
  rcases hx : (r.answer value enter).run.run p with ⟨i | x, p'⟩
  · refine iff_of_false List.not_mem_nil ?_
    rintro ⟨x, q, hq, -⟩
    cases hx.symm.trans hq
  · constructor
    · exact fun ht => ⟨x, p', hx, ht⟩
    · rintro ⟨x', q, hq, ht⟩
      cases hx.symm.trans hq
      exact ht

theorem Only.of_asked {a : Plan σ α} (h : a.Only P enter.isSome)
    (hr : (r, q) ∈ a.asked value enter p) : P r := by
  induction a generalizing p with
  | done a => cases hr
  | ask r' next ih =>
    obtain heq | ⟨x, p', hx, hr⟩ := mem_asked.mp hr
    · cases heq
      exact h.1
    · refine ih x (h.2 x ?_) hr
      cases r' with
      | room =>
        cases hx
        rfl
      | _ => trivial

theorem run_congr {a : Plan σ α}
    (h : ∀ r q, (r, q) ∈ a.asked value enter p →
      (r.answer value' enter').run.run q = (r.answer value enter).run.run q) :
    (a.run value' enter').run.run p = (a.run value enter).run.run p := by
  induction a generalizing p with
  | done a => rfl
  | ask r next ih =>
    rw [run, run, Formula.run_bind, Formula.run_bind, h r p (mem_asked.mpr (.inl rfl))]
    rcases hx : (r.answer value enter).run.run p with ⟨i | x, p'⟩
    · rfl
    · exact ih x fun r' q hq => h r' q (mem_asked.mpr (.inr ⟨x, p', hx, hq⟩))

end Plan

section

variable {P : Request σ → Prop} {roomy : Bool} {frames : Frames}

theorem only_planAll {items : List Expr} (h : ∀ e ∈ items, P (.part frames e)) :
    (planAll frames items).Only P roomy := by
  induction items with
  | nil => trivial
  | cons e items ih =>
    exact (Plan.only_part (h e (by simp))).bind fun v => (ih fun a ha => h a (by simp [ha])).map _

theorem only_planFields {fields : List (String × Expr)} (h : ∀ q ∈ fields, P (.part frames q.2))
    (done : Record) : (planFields frames done fields).Only P roomy := by
  induction fields generalizing done with
  | nil => trivial
  | cons q fields ih =>
    exact (Plan.only_part (h q (by simp))).bind fun v => ih (fun a ha => h a (by simp [ha])) _

theorem only_planChain {items : List Expr} (h : ∀ e ∈ items, P (.part frames e)) (last : Value) :
    (planChain frames last items).Only P roomy := by
  induction items generalizing last with
  | nil => trivial
  | cons e items ih =>
    refine (Plan.only_part (h e (by simp))).bind fun v => ?_
    split
    · trivial
    · exact ih (fun a ha => h a (by simp [ha])) v

theorem only_planConditions {items : List Expr} (h : ∀ e ∈ items, P (.part frames e)) :
    (planConditions frames items).Only P roomy := by
  induction items with
  | nil => trivial
  | cons e items ih =>
    refine (Plan.only_part (h e (by simp))).bind fun v => ?_
    obtain m | (_ | _) := truth v
    · trivial
    · trivial
    · exact ih fun a ha => h a (by simp [ha])

theorem only_planIf : ∀ {args : List Expr}, (∀ e ∈ args, P (.part frames e)) →
    (planIf frames args).Only P roomy
  | [], _ => trivial
  | [otherwise], h => Plan.only_part (h otherwise (by simp))
  | condition :: value :: rest, h => by
    refine (Plan.only_part (h condition (by simp))).bind fun v => ?_
    obtain m | (_ | _) := truth v
    · trivial
    · exact only_planIf fun e he => h e (by simp [he])
    · exact Plan.only_part (h value (by simp))

theorem only_planArgs {args : List Expr} (h : ∀ e ∈ args, P (.part frames e)) (scope : Record)
    (params : List (String × Kind)) : (planArgs frames scope params args).Only P roomy := by
  induction args generalizing scope params with
  | nil => cases params <;> trivial
  | cons e args ih =>
    cases params with
    | nil => trivial
    | cons q params =>
      refine (Plan.only_part (h e (by simp))).bind fun v => ?_
      split
      · trivial
      · cases coerce v q.2 with
        | error m => trivial
        | ok w => exact ih (fun a ha => h a (by simp [ha])) _ params

theorem only_planRows {e : Expr} (h : ∀ row, P (.part (rowFrame row :: frames) e)) (rows : Table) :
    (planRows frames e rows).Only P roomy := by
  induction rows with
  | nil => trivial
  | cons row rows ih => exact (Plan.only_part (h row)).bind fun v => ih.map _

theorem only_planFilter {conditions : List Expr}
    (h : ∀ e ∈ conditions, ∀ row, P (.part (rowFrame row :: frames) e)) (kept rows : Table) :
    (planFilter frames conditions kept rows).Only P roomy := by
  induction rows generalizing kept with
  | nil => trivial
  | cons row rows ih =>
    refine (only_planConditions fun e he => h e he row).bind fun r => ?_
    obtain m | (_ | _) := r
    · trivial
    · exact ih kept
    · exact ih (row :: kept)

theorem only_planCollect {more : List Expr} (h : ∀ e ∈ more, ∀ frames, P (.part frames e))
    (name : String) (first : Value) : (planCollect frames name first more).Only P roomy := by
  obtain _ | ⟨e, _ | ⟨f, more⟩⟩ := more
  · cases first with
    | table rows =>
      rw [planCollect]
      split <;> trivial
    | _ => trivial
  · cases first with
    | table rows => exact (only_planRows (fun row => h e (by simp) _) rows).map _
    | _ => exact (Plan.only_part (h e (by simp) _)).map _
  · cases first with
    | table rows => trivial
    | _ =>
      refine (Plan.only_part (h e (by simp) _)).bind fun w => ?_
      exact (only_planAll fun a ha => h a (List.mem_cons_of_mem e ha) _).map _

variable {env : Environment σ} {args : List Expr}

theorem only_planUser {f : UserFunction} (hroom : P .room)
    (hbody : roomy = true → ∀ scope e, P (.body scope e)) (h : ∀ e ∈ args, P (.part frames e)) :
    (planUser frames env f args).Only P roomy := by
  refine ⟨hroom, fun b hb => ?_⟩
  obtain rfl : b = roomy := hb
  -- Without room the call is refused before its arguments.
  cases b with
  | false => trivial
  | true =>
    refine (only_planArgs h .empty f.params).bind fun scope => ?_
    obtain v | scope := scope
    · trivial
    · exact ⟨hbody rfl scope f.body, fun _ _ => trivial⟩

theorem only_planHost {name : String} {h : HostFunction σ} (hhost : ∀ vs, P (.host h vs))
    (hargs : ∀ e ∈ args, P (.part frames e)) :
    (planHost frames env name h args).Only P roomy := by
  refine (only_planAll hargs).bind fun vs => ?_
  cases firstError? vs with
  | some e => trivial
  | none =>
    dsimp only
    split
    · exact ⟨hhost vs, fun _ _ => trivial⟩
    · trivial

theorem only_planBuiltin {b : Builtin} (h : ∀ e ∈ args, ∀ frames, P (.part frames e)) :
    (planBuiltin frames env b args).Only P roomy := by
  have strict : (do
      let vs ← planAll frames args
      pure (applyStrict env b vs) : Plan σ Value).Only P roomy :=
    (only_planAll fun e he => h e he frames).map _
  have aggregate (name : String) (result : Except String (List Numeric) → Value) (t : Expr)
      (more : List Expr) (hargs : args = t :: more) : (do
      let first ← .part frames t
      return result (← planCollect frames name first more) : Plan σ Value).Only P roomy := by
    subst hargs
    refine (Plan.only_part (h t (by simp) frames)).bind fun first => ?_
    exact (only_planCollect (fun e he => h e (List.mem_cons_of_mem t he)) name first).map _
  cases args with
  | nil =>
    cases b with
    | ifThen => trivial
    | _ => exact strict
  | cons t args =>
    cases b with
    | ifThen => exact only_planIf fun e he => h e he frames
    | sum => exact aggregate "Sum" (fun ns => valueOf (ns.bind total)) t args rfl
    | max => exact aggregate "Max" (fun ns => valueOf (ns.map (extremeValue .gt))) t args rfl
    | min => exact aggregate "Min" (fun ns => valueOf (ns.map (extremeValue .lt))) t args rfl
    | filter =>
      refine (Plan.only_part (h t (by simp) frames)).bind fun v => ?_
      obtain m | rows := rows "Filter" v
      · trivial
      · exact (only_planFilter (fun e he row => h e (List.mem_cons_of_mem t he) _) [] rows).map _
    | forAll =>
      cases args with
      | nil => exact strict
      | cons e args =>
        refine (Plan.only_part (h t (by simp) frames)).bind fun v => ?_
        obtain m | rows := rows "ForAll" v
        · trivial
        · exact (only_planRows (fun row => h e (by simp) _) rows).map _
    | _ => exact strict

theorem only_planCall {name : String} (hroom : P .room)
    (hbody : roomy = true → ∀ scope e, P (.body scope e)) (hhost : ∀ h vs, P (.host h vs))
    (hargs : ∀ e ∈ args, ∀ frames, P (.part frames e)) (c : Callee σ) :
    (planCall frames env name args c).Only P roomy := by
  cases c with
  | user f => exact only_planUser hroom hbody fun e he => hargs e he frames
  | host h => exact only_planHost (hhost h) fun e he => hargs e he frames
  | builtin b => exact only_planBuiltin hargs
  | fault answer => trivial

end

theorem only_plan (env : Environment σ) (frames : Frames) (roomy : Bool) (e : Expr) :
    (plan frames env e).Only (Request.Within e roomy) roomy := by
  have items {items : List Expr} (hs : sizeOf items < sizeOf e) :
      ∀ a ∈ items, ∀ frames : Frames, (.part frames a : Request σ).Within e roomy :=
    fun a ha _ => Nat.lt_trans (List.sizeOf_lt_of_mem ha) hs
  cases e with
  | number | text | boolean | name => trivial
  | record fields =>
    refine (only_planFields (fun q hq => ?_) .empty).map _
    have hm := List.sizeOf_lt_of_mem hq
    obtain ⟨n, e⟩ := q
    simp only [Request.Within, Expr.record.sizeOf_spec, Prod.mk.sizeOf_spec] at hm ⊢
    omega
  | table list => exact (only_planAll fun a ha => items (by simp) a ha frames).map _
  | chain list => exact only_planChain (fun a ha => items (by simp) a ha frames) .blank
  | unary op e | percent e | field e name =>
    refine (Plan.only_part ?_).map _
    simp only [Request.Within, Expr.unary.sizeOf_spec, Expr.percent.sizeOf_spec,
      Expr.field.sizeOf_spec]
    omega
  | binary op l r =>
    have hl : (.part frames l : Request σ).Within (.binary op l r) roomy := by
      simp only [Request.Within, Expr.binary.sizeOf_spec]
      omega
    have hr : (.part frames r : Request σ).Within (.binary op l r) roomy := by
      simp only [Request.Within, Expr.binary.sizeOf_spec]
      omega
    cases op with
    | and =>
      refine (Plan.only_part hl).bind fun v => ?_
      obtain m | (_ | _) := truth v
      · trivial
      · trivial
      · exact (Plan.only_part hr).map _
    | or =>
      refine (Plan.only_part hl).bind fun v => ?_
      obtain m | (_ | _) := truth v
      · trivial
      · exact (Plan.only_part hr).map _
      · trivial
    | _ => exact (Plan.only_part hl).bind fun v => (Plan.only_part hr).map _
  | call name args offset =>
    refine only_planCall trivial (fun hr _ _ => hr) (fun _ _ => trivial) (items ?_) _
    simp only [Expr.call.sizeOf_spec]
    omega

end FormulaShell.Formula
