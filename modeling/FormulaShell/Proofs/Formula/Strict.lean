import FormulaShell.Proofs.Formula.Locality

namespace FormulaShell.Formula

variable {σ α β : Type}

/-- All arguments are evaluated before the function does anything. -/
def Builtin.isStrict (b : Builtin) : Bool := !b.rowScoped && b != .ifThen

/-- How a body is entered while `depth` calls may still be opened. -/
def Environment.enter (env : Environment σ) : Nat → Enter σ
  | 0 => none
  | depth + 1 => some fun scope body => evalAt env depth [scope] body

theorem evalAt_eq (env : Environment σ) (depth : Nat) (frames : Frames) (e : Expr) :
    evalAt env depth frames e = eval env (env.enter depth) frames e := by
  cases depth <;> rfl

structure Turn (σ : Type) where
  expr : Expr
  start : Progress σ

section

variable (env : Environment σ) (enter : Enter σ) (frames : Frames)

/-- A call has come to a strict argument. Those before it have values that are no errors, and that
fit the parameters of a user function. -/
inductive StrictArgument (p : Progress σ) : Callee σ → List Expr → Turn σ → Prop where
  | builtin {b pre e post vs q} : b.isStrict → b ≠ .isError →
      Finishes (evalAll env enter frames pre) p vs q → (∀ v ∈ vs, v.isError = false) →
      StrictArgument p (.builtin b) (pre ++ e :: post) ⟨e, q⟩
  | host {h pre e post vs q} :
      Finishes (evalAll env enter frames pre) p vs q → (∀ v ∈ vs, v.isError = false) →
      StrictArgument p (.host h) (pre ++ e :: post) ⟨e, q⟩
  | user {f pre e post scope q} : enter.isSome →
      Finishes (bindArgs env enter frames .empty (f.params.take pre.length) pre) p (.ok scope) q →
      StrictArgument p (.user f) (pre ++ e :: post) ⟨e, q⟩
  | condition {e post} : StrictArgument p (.builtin .ifThen) (e :: post) ⟨e, p⟩
  | table {b e post} : b.rowScoped → StrictArgument p (.builtin b) (e :: post) ⟨e, p⟩

/-- The evaluation of an expression has come to a part of it in a strict place. -/
inductive Strict : Turn σ → Turn σ → Prop where
  | unary {op e p q} : Finishes (visit env) p () q → Strict ⟨.unary op e, p⟩ ⟨e, q⟩
  | percent {e p q} : Finishes (visit env) p () q → Strict ⟨.percent e, p⟩ ⟨e, q⟩
  | owner {e name p q} : Finishes (visit env) p () q → Strict ⟨.field e name, p⟩ ⟨e, q⟩
  | left {op l r p q} : Finishes (visit env) p () q → Strict ⟨.binary op l r, p⟩ ⟨l, q⟩
  | right {op l r p q v q'} : op ≠ .and → op ≠ .or → Finishes (visit env) p () q →
      Finishes (eval env enter frames l) q v q' → v.isError = false →
      Strict ⟨.binary op l r, p⟩ ⟨r, q'⟩
  | andRight {l r p q v q'} : Finishes (visit env) p () q →
      Finishes (eval env enter frames l) q v q' → truth v = .ok true →
      Strict ⟨.binary .and l r, p⟩ ⟨r, q'⟩
  | orRight {l r p q v q'} : Finishes (visit env) p () q →
      Finishes (eval env enter frames l) q v q' → truth v = .ok false →
      Strict ⟨.binary .or l r, p⟩ ⟨r, q'⟩
  | argument {name args offset p q t} : Finishes (visit env) p () q →
      StrictArgument env enter frames q (callee env name args.length) args t →
      Strict ⟨.call name args offset, p⟩ t

/-- An evaluation ends with a value that `P` holds of, or because a poll has said so. -/
def Ended (P : α → Prop) : Except Interrupt α → Prop
  | .ok v => P v
  | .error i => ∃ w, (env.poll w).1 = some i

def Halts (P : α → Prop) (a : Eval σ α) : Prop := ∀ p, Ended env P (a.run.run p).1

end

section

variable {env : Environment σ} {enter : Enter σ} {frames : Frames}

theorem Ended.eq_ok {r : Except Interrupt α} {v : α} (h : Ended env (· = v) r)
    (hpoll : env.poll = .never) : r = .ok v := by
  cases r with
  | ok w => exact congrArg Except.ok h
  | error i =>
    obtain ⟨w, hw⟩ := h
    rw [hpoll] at hw
    cases hw

theorem halts_pure {P : α → Prop} {v : α} (h : P v) : Halts env P (pure v) := fun _ => h

theorem Halts.bind {P : α → Prop} {Q : β → Prop} {a : Eval σ α} {f : α → Eval σ β}
    (ha : Halts env P a) (hf : ∀ v, P v → Halts env Q (f v)) : Halts env Q (a >>= f) := by
  intro p
  have h := ha p
  rw [run_bind]
  generalize a.run.run p = o at h
  obtain ⟨i | v, q⟩ := o
  · exact h
  · exact hf v h q

theorem congruence_halts :
    Congruence fun (α : Type) (a _ : Eval σ α) => Halts env (fun _ => True) a where
  value _ := halts_pure trivial
  bind ha hf := ha.bind fun v _ => hf v

theorem halts_pause : Halts env (fun _ => True) (pause env) := by
  intro p
  rw [run_pause]
  cases h : (env.poll p.world).1 with
  | none => trivial
  | some i => exact ⟨p.world, h⟩

theorem halts_visit : Halts env (fun _ => True) (visit env) := by
  intro p
  rw [run_visit]
  split
  · exact halts_pause _
  · trivial

theorem halts_applyHost (name : String) (h : HostFunction σ) (vs : List Value) :
    Halts env (fun _ => True) (applyHost env name h vs) := by
  rw [applyHost]
  split
  · exact halts_pure trivial
  · split
    · exact fun p => trivial
    · exact halts_pure trivial

theorem peers_halts :
    Peers (fun (α : Type) (a _ : Eval σ α) => Halts env (fun _ => True) a) env env where
  visit := halts_visit
  host name h vs _ := halts_applyHost name h vs
  tooDeep := rfl
  missingArgument := rfl

theorem halts_eval (depth : Nat) (e : Expr) :
    Halts env (fun _ => True) (eval env (env.enter depth) frames e) := by
  rw [← evalAt_eq]
  refine congruence_halts.evalAt peers_halts depth (s := ⟨true, frames, e⟩) fun s _ => ?_
  obtain ⟨named, frames, e⟩ := s
  cases e with
  | name | call => rfl
  | _ => trivial

theorem halts_evalAll (depth : Nat) (items : List Expr) :
    Halts env (fun _ => True) (evalAll env (env.enter depth) frames items) := by
  induction items with
  | nil => exact halts_pure trivial
  | cons e items ih =>
    exact (halts_eval depth e).bind fun v _ => ih.bind fun vs _ => halts_pure trivial

theorem evalAll_append (pre : List Expr) (e : Expr) (post : List Expr) :
    evalAll env enter frames (pre ++ e :: post) = (do
      let vs ← evalAll env enter frames pre
      let v ← eval env enter frames e
      let ws ← evalAll env enter frames post
      pure (vs ++ v :: ws)) := by
  induction pre with
  | nil => simp [evalAll]
  | cons a pre ih => simp [evalAll, ih]

theorem bindArgs_append {pre : List Expr} {params : List (String × Kind)}
    (h : pre.length ≤ params.length) (scope : Record) (rest : List Expr) :
    bindArgs env enter frames scope params (pre ++ rest) = (do
      match ← bindArgs env enter frames scope (params.take pre.length) pre with
      | .error v => pure (.error v)
      | .ok scope => bindArgs env enter frames scope (params.drop pre.length) rest) := by
  induction pre generalizing params scope with
  | nil => simp [bindArgs]
  | cons a pre ih =>
    cases params with
    | nil => simp at h
    | cons q params =>
      simp only [List.length_cons, Nat.add_le_add_iff_right] at h
      rw [List.cons_append, List.length_cons, List.take_succ_cons, List.drop_succ_cons, bindArgs,
        bindArgs, bind_assoc]
      congr 1
      funext v
      by_cases hv : v.isError
      · simp [hv]
      · rw [if_neg hv, if_neg hv]
        cases coerce v q.2 with
        | error m => simp
        | ok w => exact ih h _

theorem firstError?_append {vs : List Value} (hvs : ∀ v ∈ vs, v.isError = false) (m : String)
    (ws : List Value) : firstError? (vs ++ .error m :: ws) = some (.error m) := by
  have hnone : vs.find? Value.isError = none := by
    rw [List.find?_eq_none]
    exact fun v hv => by simp [hvs v hv]
  rw [firstError?, List.find?_append, hnone]
  rfl

theorem applyStrict_append {b : Builtin} (hb : b ≠ .isError) {vs : List Value}
    (hvs : ∀ v ∈ vs, v.isError = false) (m : String) (ws : List Value) :
    applyStrict env b (vs ++ .error m :: ws) = .error m := by
  rw [applyStrict, if_neg hb, firstError?_append hvs]

theorem applyHost_append {name : String} {h : HostFunction σ} {vs : List Value}
    (hvs : ∀ v ∈ vs, v.isError = false) (m : String) (ws : List Value) :
    applyHost env name h (vs ++ .error m :: ws) = pure (.error m) := by
  rw [applyHost, firstError?_append hvs]

theorem binary_error {v : Value} (hv : v.isError = false) (op : BinaryOp) (m : String) :
    binary op v (.error m) = .error m := by
  cases v with
  | error => cases hv
  | _ => rfl

theorem halts_collect (depth : Nat) (name m : String) (more : List Expr) :
    Halts env (· = .error m) (collect env (env.enter depth) frames name (.error m) more) := by
  cases more with
  | nil => exact halts_pure rfl
  | cons e more =>
    cases more with
    | nil => exact (halts_eval depth e).bind fun w _ => halts_pure rfl
    | cons f more =>
      refine (halts_eval depth e).bind fun w _ => ?_
      exact (halts_evalAll depth (f :: more)).bind fun vs _ => halts_pure rfl

theorem callBuiltin_of_isStrict {b : Builtin} (hb : b.isStrict) (args : List Expr) :
    callBuiltin env enter frames b args = (do
      let vs ← evalAll env enter frames args
      pure (applyStrict env b vs)) := by
  cases b <;> first | rfl | cases hb

/-- The outcome is that of an action which awaits the value of a part, and takes an error for its
own result. -/
def Awaits (env : Environment σ) (enter : Enter σ) (frames : Frames)
    (o : Except Interrupt Value × Progress σ) (t : Turn σ) : Prop :=
  ∃ k : Value → Eval σ Value,
    o = (eval env enter frames t.expr >>= k).run.run t.start ∧
      ∀ m, Halts env (· = .error m) (k (.error m))

theorem awaits_evalAll {pre post : List Expr} {e : Expr} {vs : List Value} {p q : Progress σ}
    {depth : Nat} {f : List Value → Eval σ Value}
    (hpre : Finishes (evalAll env (env.enter depth) frames pre) p vs q)
    (hf : ∀ m ws, Halts env (· = .error m) (f (vs ++ .error m :: ws))) :
    Awaits env (env.enter depth) frames
      ((evalAll env (env.enter depth) frames (pre ++ e :: post) >>= f).run.run p) ⟨e, q⟩ := by
  refine ⟨fun v => evalAll env (env.enter depth) frames post >>= fun ws => f (vs ++ v :: ws), ?_,
    fun m => (halts_evalAll depth post).bind fun ws _ => hf m ws⟩
  rw [evalAll_append]
  simp only [bind_assoc, pure_bind]
  exact hpre.run_bind _

theorem StrictArgument.awaits {p : Progress σ} {name : String} {c : Callee σ} {args : List Expr}
    {t : Turn σ} {depth : Nat} (h : StrictArgument env (env.enter depth) frames p c args t)
    (hc : c = callee env name args.length) :
    Awaits env (env.enter depth) frames
      ((c.call env (env.enter depth) frames name args).run.run p) t := by
  cases h with
  | builtin hstrict hb hpre hvs =>
    rw [Callee.call, callBuiltin_of_isStrict hstrict]
    exact awaits_evalAll hpre fun m ws => halts_pure (applyStrict_append hb hvs m ws)
  | host hpre hvs =>
    refine awaits_evalAll hpre fun m ws => ?_
    rw [applyHost_append hvs]
    exact halts_pure rfl
  | @user f pre e post scope q hsome hpre =>
    have hlen := admits_arity.mp (get?_of_callee hc.symm).2
    rw [List.length_append, List.length_cons] at hlen
    have hne : f.params.drop pre.length ≠ [] := by
      rw [Ne, List.drop_eq_nil_iff]
      omega
    obtain ⟨param, params, hdrop⟩ := List.exists_cons_of_ne_nil hne
    rw [Callee.call, callUser, if_pos hsome, bindArgs_append (by omega), bind_assoc,
      hpre.run_bind]
    dsimp only
    rw [hdrop, bindArgs, bind_assoc]
    exact ⟨_, rfl, fun m => halts_pure rfl⟩
  | @condition e post =>
    cases post with
    | nil => exact ⟨pure, by rw [bind_pure]; rfl, fun m => halts_pure rfl⟩
    | cons value rest => exact ⟨_, rfl, fun m => halts_pure rfl⟩
  | @table b e post hb =>
    cases b with
    | sum | max | min =>
      refine ⟨_, rfl, fun m => (halts_collect depth _ m post).bind fun ns hns => ?_⟩
      rw [hns]
      exact halts_pure rfl
    | filter => exact ⟨_, rfl, fun m => halts_pure rfl⟩
    | forAll =>
      cases post with
      | nil =>
        have hpre : Finishes (evalAll env (env.enter depth) frames []) p [] p := rfl
        have hnone : ∀ v ∈ ([] : List Value), v.isError = false := by simp
        exact awaits_evalAll hpre fun m ws => halts_pure (applyStrict_append (by decide) hnone m ws)
      | cons formula post => exact ⟨_, rfl, fun m => halts_pure rfl⟩
    | _ => cases hb

theorem Strict.awaits {s t : Turn σ} {depth : Nat} (h : Strict env (env.enter depth) frames s t) :
    Awaits env (env.enter depth) frames
      ((eval env (env.enter depth) frames s.expr).run.run s.start) t := by
  cases h with
  | @unary op e p q hv =>
    rw [eval, hv.run_bind]
    refine ⟨_, rfl, fun m => halts_pure ?_⟩
    cases op <;> rfl
  | percent hv | owner hv =>
    rw [eval, hv.run_bind]
    exact ⟨_, rfl, fun m => halts_pure rfl⟩
  | @left op l r p q hv =>
    cases op with
    | and | or =>
      rw [eval, hv.run_bind]
      exact ⟨_, rfl, fun m => halts_pure rfl⟩
    | _ =>
      rw [eval, hv.run_bind]
      · exact ⟨_, rfl, fun m => (halts_eval depth r).bind fun v _ => halts_pure rfl⟩
      all_goals exact fun hop => by cases hop
  | right hand hor hv hl hnot =>
    rw [eval, hv.run_bind, hl.run_bind]
    · exact ⟨_, rfl, fun m => halts_pure (binary_error hnot _ m)⟩
    · exact hand
    · exact hor
  | andRight hv hl ht | orRight hv hl ht =>
    rw [eval, hv.run_bind, hl.run_bind, ht]
    exact ⟨_, rfl, fun m => halts_pure rfl⟩
  | argument hv harg =>
    rw [eval_call, hv.run_bind]
    exact harg.awaits rfl

/-- One strict place: the error of the part is the error of the whole, if no poll is in the way. -/
theorem Strict.ended {s t : Turn σ} {depth : Nat} (h : Strict env (env.enter depth) frames s t)
    {m : String} (ht : Ended env (· = .error m)
      ((eval env (env.enter depth) frames t.expr).run.run t.start).1) :
    Ended env (· = .error m) ((eval env (env.enter depth) frames s.expr).run.run s.start).1 := by
  obtain ⟨k, hrun, hk⟩ := h.awaits
  rw [hrun, run_bind]
  generalize (eval env (env.enter depth) frames t.expr).run.run t.start = o at ht
  obtain ⟨i | v, q⟩ := o
  · exact ht
  · obtain rfl : v = .error m := ht
    exact hk m q

end

/-- The error of a part that stands in strict places only, however many, is the error of the whole
expression, unless a poll interrupts what is still to be evaluated. -/
theorem error_of_strict (env : Environment σ) (depth : Nat) (frames : Frames) {s t : Turn σ}
    (h : Relation.ReflTransGen (Strict env (env.enter depth) frames) s t) {m : String}
    (ht : ((evalAt env depth frames t.expr).run.run t.start).1 = .ok (.error m)) :
    Ended env (· = .error m) ((evalAt env depth frames s.expr).run.run s.start).1 ∧
      (env.poll = .never →
        ((evalAt env depth frames s.expr).run.run s.start).1 = .ok (.error m)) := by
  rw [evalAt_eq] at ht ⊢
  have hend : Ended env (· = .error m)
      ((eval env (env.enter depth) frames s.expr).run.run s.start).1 := by
    -- The innermost place comes first: its error is what the next one awaits.
    induction h using Relation.ReflTransGen.head_induction_on with
    | refl =>
      rw [ht]
      exact rfl
    | head hs _ ih => exact hs.ended ih
  exact ⟨hend, hend.eq_ok⟩

/-- `echo(s: Text): Text = s`. -/
def echo : UserFunction := ⟨"echo", [("s", .text)], .text, .name "s" 0⟩

def echoing : Environment Unit where
  globals := .empty
  bindings := .empty
  functions := Fields.empty.insert "echo" echo
  hosts := .empty
  poll := .never
  faults := .standard

def failing : Expr := .call "Error" [.text "bad"] 0

/-- `Concatenate("a", -Error("bad")) & "b"`. -/
def joining : Expr :=
  .binary .concat (.call "Concatenate" [.text "a", .unary .neg failing] 0) (.text "b")

/-- The error is six strict places further in than the expression around it. -/
theorem error_of_strict_joining :
    ((evalAt echoing 1 [] failing).run.run ⟨7, ()⟩).1 = .ok (.error "bad") ∧
      ((evalAt echoing 1 []
        (.call "If" [.call "IsBlank" [.call "echo" [joining] 0] 0, .boolean true] 0)).run.run
          ⟨0, ()⟩).1 = .ok (.error "bad") := by
  have herror : ((evalAt echoing 1 [] failing).run.run ⟨7, ()⟩).1 = .ok (.error "bad") := rfl
  have hnone (p : Progress Unit) : Finishes (evalAll echoing (echoing.enter 1) [] []) p [] p := rfl
  have hbefore : Finishes (evalAll echoing (echoing.enter 1) [] [.text "a"]) ⟨5, ()⟩ [.text "a"]
    ⟨6, ()⟩ := rfl
  have hecho : StrictArgument echoing (echoing.enter 1) [] ⟨3, ()⟩ (.user echo) ([] ++ [joining])
    ⟨joining, ⟨3, ()⟩⟩ := .user rfl rfl
  refine ⟨herror, (error_of_strict echoing 1 [] (s := ⟨_, ⟨0, ()⟩⟩)
    (t := ⟨failing, ⟨7, ()⟩⟩) ?_ herror).2 rfl⟩
  refine .head (.argument (q := ⟨1, ()⟩) rfl .condition) ?_
  refine .head (.argument (q := ⟨2, ()⟩) rfl (.builtin rfl (by decide) (hnone _) (by simp))) ?_
  refine .head (.argument (q := ⟨3, ()⟩) rfl hecho) ?_
  refine .head (.left (q := ⟨4, ()⟩) rfl) ?_
  refine .head (.argument (q := ⟨5, ()⟩) rfl
    (.builtin rfl (by decide) hbefore (by simp [Value.isError]))) ?_
  exact .single (.unary rfl)

end FormulaShell.Formula
