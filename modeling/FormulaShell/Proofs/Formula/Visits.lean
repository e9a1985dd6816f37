import FormulaShell.Proofs.Formula.Requests
import FormulaShell.Proofs.Formula.Strict

namespace FormulaShell.Formula

variable {σ α : Type}

/-- With so many calls left to open, carrying out a plan in the first world gives an answer and
leaves the second world, and a number of expressions has been evaluated for it. -/
inductive Plan.Evaluates (env : Environment σ) :
    Nat → ∀ {α : Type}, Plan σ α → σ → α → σ → Nat → Prop where
  | done {depth : Nat} {α : Type} {w : σ} (a : α) : Evaluates env depth (done a) w a w 0
  | part {depth k l : Nat} {frames : Frames} {e : Expr} {v : Value} {α : Type}
      {next : Value → Plan σ α} {a : α} {w w' w'' : σ} :
      Evaluates env depth (plan frames env e) w v w' k → Evaluates env depth (next v) w' a w'' l →
      Evaluates env depth (ask (.part frames e) next) w a w'' (k + 1 + l)
  | room {depth l : Nat} {α : Type} {next : Bool → Plan σ α} {a : α} {w w' : σ} :
      Evaluates env depth (next (decide (0 < depth))) w a w' l →
      Evaluates env depth (ask .room next) w a w' l
  | body {depth k l : Nat} {scope : Record} {e : Expr} {v : Value} {α : Type}
      {next : Value → Plan σ α} {a : α} {w w' w'' : σ} :
      Evaluates env depth (plan [scope] env e) w v w' k →
      Evaluates env (depth + 1) (next v) w' a w'' l →
      Evaluates env (depth + 1) (ask (.body scope e) next) w a w'' (k + 1 + l)
  | host {depth l : Nat} {h : HostFunction σ} {args : List Value} {α : Type}
      {next : Value → Plan σ α} {a : α} {w w' : σ} :
      Evaluates env depth (next (h.run args w).1) (h.run args w).2 a w' l →
      Evaluates env depth (ask (.host h args) next) w a w' l

section

variable {env : Environment σ} (hpoll : env.poll = .never)
include hpoll

theorem run_visit_never (p : Progress σ) :
    (visit env).run.run p = (.ok (), { p with visited := p.visited + 1 }) := by
  rw [run_visit]
  split
  · rw [run_pause, hpoll]
    rfl
  · rfl

theorem run_evalAt_never {depth n k : Nat} {frames : Frames} {e : Expr} {v : Value} {w w' : σ}
    (h : ((plan frames env e).run (eval env (env.enter depth)) (env.enter depth)).run.run
      ⟨n + 1, w⟩ = (.ok v, ⟨n + 1 + k, w'⟩)) :
    (evalAt env depth frames e).run.run ⟨n, w⟩ = (.ok v, ⟨n + (k + 1), w'⟩) := by
  rw [evalAt_eq, eval_eq_run, run_bind, run_visit_never hpoll]
  exact h.trans (by rw [Nat.add_right_comm, Nat.add_assoc])

theorem Plan.Evaluates.run {depth k : Nat} {plan : Plan σ α} {a : α} {w w' : σ}
    (h : plan.Evaluates env depth w a w' k) (n : Nat) :
    (plan.run (eval env (env.enter depth)) (env.enter depth)).run.run ⟨n, w⟩ =
      (.ok a, ⟨n + k, w'⟩) := by
  induction h generalizing n with
  | done => rfl
  | part _ _ ihe ih =>
    have he := run_evalAt_never hpoll (ihe (n + 1))
    rw [evalAt_eq] at he
    rw [Plan.run, Request.answer, Formula.run_bind, he]
    exact (ih _).trans (by rw [Nat.add_assoc])
  | @room depth _ _ _ _ _ _ _ ih =>
    rw [Plan.run, Request.answer, Formula.run_bind]
    cases depth <;> exact ih n
  | body _ _ ihe ih =>
    have he := run_evalAt_never hpoll (ihe (n + 1))
    rw [Plan.run, Formula.run_bind]
    simp only [Request.answer, Environment.enter, he]
    exact (ih _).trans (by rw [Nat.add_assoc])
  | host _ ih => exact ih n

end

theorem Plan.exists_evaluates {env : Environment σ} {depth : Nat} {e : Expr} {plan : Plan σ α}
    (h : plan.Only (Request.Within e (decide (0 < depth))) (decide (0 < depth)))
    (parts : ∀ t, sizeOf t < sizeOf e → ∀ frames w,
      ∃ v w' k, Evaluates env depth (Formula.plan frames env t) w v w' k)
    (bodies : ∀ d, depth = d + 1 → ∀ t scope w,
      ∃ v w' k, Evaluates env d (Formula.plan [scope] env t) w v w' k) (w : σ) :
    ∃ a w' k, plan.Evaluates env depth w a w' k := by
  induction plan generalizing w with
  | done a => exact ⟨a, w, 0, .done a⟩
  | ask r next ih =>
    cases r with
    | part frames t =>
      obtain ⟨v, w', k, ht⟩ := parts t h.1 frames w
      obtain ⟨a, w'', l, hnext⟩ := ih v (h.2 v trivial) w'
      exact ⟨a, w'', k + 1 + l, .part ht hnext⟩
    | room =>
      obtain ⟨a, w', l, hnext⟩ := ih _ (h.2 _ rfl) w
      exact ⟨a, w', l, .room hnext⟩
    | body scope t =>
      have hroom : 0 < depth := of_decide_eq_true h.1
      obtain ⟨d, rfl⟩ := Nat.exists_eq_add_one.mpr hroom
      obtain ⟨v, w', k, ht⟩ := bodies d rfl t scope w
      obtain ⟨a, w'', l, hnext⟩ := ih v (h.2 v trivial) w'
      exact ⟨a, w'', k + 1 + l, .body ht hnext⟩
    | host f args =>
      obtain ⟨a, w', l, hnext⟩ := ih (f.run args w).1 (h.2 _ trivial) (f.run args w).2
      exact ⟨a, w', l, .host hnext⟩

theorem exists_evaluates (env : Environment σ) (depth : Nat) (e : Expr) (frames : Frames) (w : σ) :
    ∃ v w' k, (plan frames env e).Evaluates env depth w v w' k :=
  Plan.exists_evaluates (only_plan env frames _ e)
    (fun t _ frames w => exists_evaluates env depth t frames w)
    (fun d _ t scope w => exists_evaluates env d t [scope] w) w
termination_by (depth, sizeOf e)
decreasing_by
  · exact Prod.Lex.right _ ‹_›
  · exact Prod.Lex.left _ _ (by omega)

/-- Evaluating an expression that no poll interrupts gives the value of its plan, and advances the
counter by the expressions that are evaluated for it. -/
theorem evaluates_iff {env : Environment σ} (hpoll : env.poll = .never) {depth : Nat}
    {frames : Frames} {e : Expr} {v : Value} {w w' : σ} {k : Nat} (n : Nat) :
    (Plan.part frames e).Evaluates env depth w v w' k ↔
      (evalAt env depth frames e).run.run ⟨n, w⟩ = (.ok v, ⟨n + k, w'⟩) := by
  have sound {u : Value} {after : σ} {l : Nat}
      (h : (Plan.part frames e).Evaluates env depth w u after l) :
      (evalAt env depth frames e).run.run ⟨n, w⟩ = (.ok u, ⟨n + l, after⟩) := by
    have hrun := h.run hpoll n
    rwa [Plan.run_part, ← evalAt_eq] at hrun
  refine ⟨sound, fun h => ?_⟩
  obtain ⟨u, after, l, he⟩ := exists_evaluates env depth e frames w
  have hpart : (Plan.part frames e).Evaluates env depth w u after (l + 1 + 0) :=
    .part he (.done u)
  obtain ⟨hv, hend⟩ := Prod.mk.inj ((sound hpart).symm.trans h)
  obtain ⟨hcount, rfl⟩ := Progress.mk.inj hend
  obtain rfl := Except.ok.inj hv
  obtain rfl := Nat.add_left_cancel hcount
  exact hpart

end FormulaShell.Formula
