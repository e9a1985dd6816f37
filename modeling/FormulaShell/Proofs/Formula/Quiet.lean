import FormulaShell.Proofs.Formula.Strict

namespace FormulaShell.Formula

variable {σ α β : Type}

theorem Yields.eq [Nonempty σ] {a : Eval σ α} {v w : α} (hv : Yields a v) (hw : Yields a w) :
    v = w := by
  obtain ⟨world⟩ := ‹Nonempty σ›
  exact Except.ok.inj ((hv ⟨0, world⟩).symm.trans (hw ⟨0, world⟩))

theorem Halts.yields {env : Environment σ} {a : Eval σ α} {v : α} (h : Halts env (· = v) a)
    (hpoll : env.poll = .never) : Yields a v :=
  fun p => (h p).eq_ok hpoll

theorem yields_mapM {f : α → Eval σ β} {g : α → β} (h : ∀ x, Yields (f x) (g x)) (xs : List α) :
    Yields (xs.mapM f) (xs.map g) := by
  induction xs with
  | nil => exact yields_pure []
  | cons x xs ih =>
    rw [List.mapM_cons]
    exact (h x).bind (ih.bind (yields_pure _))

theorem Builtin.ofName?_name (b : Builtin) : ofName? b.name = some b := by
  cases b <;> rfl

/-- There is no function of the host, and nothing interrupts. -/
structure Environment.Quiet (env : Environment σ) : Prop where
  poll : env.poll = .never
  hosts : env.hosts = .empty

/-- No other function has the name of the built-in one. -/
structure Environment.Means (env : Environment σ) (b : Builtin) : Prop where
  functions : env.functions.get? b.name = none
  hosts : env.hosts.get? b.name = none

section

variable {env : Environment σ} {b : Builtin}

theorem Environment.Means.eval_call (h : env.Means b) (enter : Enter σ) (frames : Frames)
    {args : List Expr} (hn : b.arity.admits args.length) (offset : Nat) :
    eval env enter frames (.call b.name args offset) = (do
      visit env
      callBuiltin env enter frames b args) := by
  have hcallee : callee env b.name args.length = .builtin b := by
    rw [callee, h.functions, h.hosts, Builtin.ofName?_name]
    exact if_pos hn
  rw [Formula.eval_call, hcallee]
  rfl

namespace Environment.Quiet

variable (h : env.Quiet)
include h

theorem exists_yields (depth : Nat) (frames : Frames) (e : Expr) :
    ∃ v, Yields (eval env (env.enter depth) frames e) v := by
  have hv : Yields (visit env) () := yields_visit h.poll
  have hpeers : Peers (fun (α : Type) (a b : Eval σ α) => Agree a b) env env :=
    ⟨⟨(), hv, hv⟩, fun _ _ _ hh => absurd hh (get?_ne_host h.hosts), rfl, rfl⟩
  rw [← evalAt_eq]
  obtain ⟨v, hv, -⟩ := congruence_agree.evalAt hpeers depth (s := ⟨true, frames, e⟩)
    fun t _ => by unfold Site.SameAnswer; split <;> trivial
  exact ⟨v, hv⟩

theorem yields_of_run {depth : Nat} {frames : Frames} {e : Expr} {p : Progress σ} {v : Value}
    (hv : ((evalAt env depth frames e).run.run p).1 = .ok v) :
    Yields (evalAt env depth frames e) v := by
  obtain ⟨w, hw⟩ := h.exists_yields depth frames e
  rw [← evalAt_eq] at hw
  obtain rfl : w = v := Except.ok.inj ((hw p).symm.trans hv)
  exact hw

theorem yields_call {enter : Enter σ} {frames : Frames} {args : List Expr} {v : Value}
    (hb : env.functions.get? b.name = none) (hn : b.arity.admits args.length)
    (hv : Yields (callBuiltin env enter frames b args) v) (offset : Nat) :
    Yields (eval env enter frames (.call b.name args offset)) v := by
  have hmeans : env.Means b :=
    ⟨hb, Option.eq_none_iff_forall_ne_some.mpr fun _ => get?_ne_host h.hosts⟩
  rw [hmeans.eval_call enter frames hn]
  exact (yields_visit h.poll).bind hv

end Environment.Quiet

end

end FormulaShell.Formula
