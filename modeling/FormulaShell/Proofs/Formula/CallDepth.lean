import FormulaShell.Proofs.Formula.Requests
import FormulaShell.Proofs.Formula.Strict

namespace FormulaShell.Formula

variable {σ : Type}

/-- An expression that is evaluated inside so many bodies of functions. -/
structure Activation (σ : Type) where
  openCalls : Nat
  frames : Frames
  expr : Expr
  start : Progress σ

namespace Activation

section

variable (env : Environment σ) (limit : Nat) (a : Activation σ)

/-- What is asked for at the expression, once it has been visited. By `eval_eq_run` it is all that
the evaluation of it asks for. -/
def asked : List (Request σ × Progress σ) :=
  let enter := env.enter (limit - a.openCalls)
  match (visit env).run.run a.start with
  | (.ok _, p) => (plan a.frames env a.expr).asked (eval env enter) enter p
  | (.error _, _) => []

def inner? : Request σ × Progress σ → Option (Activation σ)
  | (.part frames e, p) => some ⟨a.openCalls, frames, e, p⟩
  | (.body scope e, p) => some ⟨a.openCalls + 1, [scope], e, p⟩
  | _ => none

def inner : List (Activation σ) := (a.asked env limit).filterMap a.inner?

/-- A call comes to be refused as too deep. -/
def exceeds : Bool := decide (limit ≤ a.openCalls) && (a.asked env limit).any (·.1 matches .room)

abbrev Reaches : Activation σ → Activation σ → Prop :=
  Relation.ReflTransGen fun a b => b ∈ a.inner env limit

def outcome : Except Interrupt Value × Progress σ :=
  (evalAt env (limit - a.openCalls) a.frames a.expr).run.run a.start

noncomputable def measure : Nat × Nat := (limit - a.openCalls, sizeOf a.expr)

end

variable {env : Environment σ} {limit : Nat} {a b : Activation σ}

theorem enter_eq_some (h : a.openCalls < limit) :
    env.enter (limit - a.openCalls) =
      some fun scope body => evalAt env (limit - (a.openCalls + 1)) [scope] body := by
  obtain ⟨depth, hdepth⟩ : ∃ depth, limit - a.openCalls = depth + 1 :=
    ⟨limit - (a.openCalls + 1), by omega⟩
  obtain rfl : depth = limit - (a.openCalls + 1) := by omega
  rw [hdepth]
  rfl

theorem enter_isSome (env : Environment σ) :
    (env.enter (limit - a.openCalls)).isSome = decide (a.openCalls < limit) := by
  by_cases h : a.openCalls < limit
  · rw [enter_eq_some h, decide_eq_true h]
    rfl
  · rw [Nat.sub_eq_zero_of_le (Nat.le_of_not_lt h), decide_eq_false h]
    rfl

theorem within_of_asked {r : Request σ} {p : Progress σ} (h : (r, p) ∈ a.asked env limit) :
    r.Within a.expr (decide (a.openCalls < limit)) := by
  rw [← enter_isSome env]
  rw [asked] at h
  split at h
  · exact (only_plan env a.frames _ a.expr).of_asked h
  · cases h

theorem lt_of_room {p : Progress σ} (h : a.exceeds env limit = false)
    (hp : (.room, p) ∈ a.asked env limit) : a.openCalls < limit := by
  refine Nat.lt_of_not_le fun hle => ?_
  rw [exceeds, decide_eq_true hle, Bool.true_and, List.any_eq_false] at h
  exact h _ hp rfl

theorem mem_inner : b ∈ a.inner env limit ↔
    (∃ frames e p, (.part frames e, p) ∈ a.asked env limit ∧ b = ⟨a.openCalls, frames, e, p⟩) ∨
      ∃ scope e p, (.body scope e, p) ∈ a.asked env limit ∧
        b = ⟨a.openCalls + 1, [scope], e, p⟩ := by
  rw [inner, List.mem_filterMap]
  constructor
  · rintro ⟨⟨r, p⟩, hr, hb⟩
    cases r with
    | part frames e => exact .inl ⟨frames, e, p, hr, (Option.some.inj hb).symm⟩
    | body scope e => exact .inr ⟨scope, e, p, hr, (Option.some.inj hb).symm⟩
    | room | host => cases hb
  · rintro (⟨frames, e, p, hr, rfl⟩ | ⟨scope, e, p, hr, rfl⟩)
    · exact ⟨_, hr, rfl⟩
    · exact ⟨_, hr, rfl⟩

/-- An activation opens a call only below the limit, and otherwise goes on to something smaller. -/
theorem step_cases (h : b ∈ a.inner env limit) :
    (b.openCalls = a.openCalls ∧ sizeOf b.expr < sizeOf a.expr) ∨
      (b.openCalls = a.openCalls + 1 ∧ a.openCalls < limit) := by
  obtain ⟨frames, e, p, hr, rfl⟩ | ⟨scope, e, p, hr, rfl⟩ := mem_inner.mp h
  · exact .inl ⟨rfl, within_of_asked hr⟩
  · exact .inr ⟨rfl, of_decide_eq_true (within_of_asked hr)⟩

theorem wellFounded_inner (env : Environment σ) (limit : Nat) :
    WellFounded fun b a : Activation σ => b ∈ a.inner env limit := by
  refine Subrelation.wf (fun {b a} h => ?_)
    (InvImage.wf (measure limit) (Prod.lex Nat.lt_wfRel Nat.lt_wfRel).wf)
  obtain ⟨hopen, hsize⟩ | ⟨hopen, hlimit⟩ := step_cases h
  · have hrest : limit - b.openCalls = limit - a.openCalls := by rw [hopen]
    exact Prod.lex_def.mpr (.inr ⟨hrest, hsize⟩)
  · exact Prod.lex_def.mpr (.inl (show limit - b.openCalls < limit - a.openCalls by omega))

theorem openCalls_le (h : a.Reaches env limit b) (ha : a.openCalls ≤ limit) :
    b.openCalls ≤ limit := by
  induction h with
  | refl => exact ha
  | tail _ hstep ih =>
    obtain ⟨hopen, -⟩ | ⟨hopen, hlimit⟩ := step_cases hstep
    · exact hopen ▸ ih
    · exact hopen ▸ hlimit

theorem outcome_eq (a : Activation σ) : a.outcome env limit =
    (visit env >>= fun _ => (plan a.frames env a.expr).run
      (eval env (env.enter (limit - a.openCalls))) (env.enter (limit - a.openCalls))).run.run
        a.start := by
  rw [outcome, evalAt_eq, eval_eq_run]

/-- One activation: under a higher limit it ends alike if those inside it do, and if it does not
exceed the lower one. -/
theorem outcome_congr {limit' : Nat} (hle : limit ≤ limit') (hclear : a.exceeds env limit = false)
    (ih : ∀ b ∈ a.inner env limit, b.outcome env limit' = b.outcome env limit) :
    a.outcome env limit' = a.outcome env limit := by
  rw [outcome_eq, outcome_eq, run_bind, run_bind]
  rcases hv : (visit env).run.run a.start with ⟨i | _, p⟩
  · rfl
  -- What a part or a body is answered is the outcome of an activation inside this one.
  · refine Plan.run_congr fun r q hr => ?_
    have hasked : (r, q) ∈ a.asked env limit := by
      rw [asked, hv]
      exact hr
    cases r with
    | part frames e =>
      have h := ih _ (mem_inner.mpr (.inl ⟨frames, e, q, hasked, rfl⟩))
      rw [outcome, outcome, evalAt_eq, evalAt_eq] at h
      exact h
    | room =>
      have hlt := lt_of_room hclear hasked
      rw [Request.answer, Request.answer, enter_isSome, enter_isSome, decide_eq_true hlt,
        decide_eq_true (Nat.lt_of_lt_of_le hlt hle)]
    | body scope e =>
      have hlt : a.openCalls < limit := of_decide_eq_true (within_of_asked hasked)
      have h := ih _ (mem_inner.mpr (.inr ⟨scope, e, q, hasked, rfl⟩))
      rw [enter_eq_some hlt, enter_eq_some (Nat.lt_of_lt_of_le hlt hle)]
      exact h
    | host h args => rfl

theorem outcome_of_clear {limit' : Nat} (hle : limit ≤ limit')
    (hclear : ∀ b, a.Reaches env limit b → b.exceeds env limit = false) :
    a.outcome env limit' = a.outcome env limit := by
  induction a using (wellFounded_inner env limit).induction with
  | _ a ih =>
    refine outcome_congr hle (hclear a .refl) fun b hb => ih b hb fun c hc => ?_
    exact hclear c (hc.head hb)

def clear (env : Environment σ) (limit : Nat) : Nat → Activation σ → Bool
  | 0, _ => false
  | n + 1, a => !a.exceeds env limit && (a.inner env limit).all (clear env limit n)

theorem exceeds_of_clear {n : Nat} (h : clear env limit n a) (hb : a.Reaches env limit b) :
    b.exceeds env limit = false := by
  induction n generalizing a with
  | zero => cases h
  | succ n ih =>
    rw [clear, Bool.and_eq_true, Bool.not_eq_true', List.all_eq_true] at h
    obtain rfl | ⟨c, hc, hcb⟩ := hb.cases_head
    · exact h.1
    · exact ih (h.2 c hc) hcb

end Activation

/-- Every evaluation ends, with no more than `limit` calls open at a time, which is `maxCallDepth`
for a workbook. If none of its calls is refused as too deep, then it is the same under any higher
limit. -/
theorem calls_bounded (env : Environment σ) (limit : Nat) (frames : Frames) (e : Expr)
    (p : Progress σ) :
    (WellFounded fun b a : Activation σ => b ∈ a.inner env limit) ∧
      Ended env (fun _ => True) ((evalAt env limit frames e).run.run p).1 ∧
      (∀ a, Activation.Reaches env limit ⟨0, frames, e, p⟩ a → a.openCalls ≤ limit) ∧
      ∀ limit', limit ≤ limit' →
        (∀ a, Activation.Reaches env limit ⟨0, frames, e, p⟩ a → a.exceeds env limit = false) →
        (evalAt env limit' frames e).run.run p = (evalAt env limit frames e).run.run p := by
  refine ⟨Activation.wellFounded_inner env limit, ?_, fun a ha => ?_, fun limit' hle h => ?_⟩
  · rw [evalAt_eq]
    exact halts_eval limit e p
  · exact Activation.openCalls_le ha (Nat.zero_le limit)
  · exact Activation.outcome_of_clear hle h

/-- `untilDone(more: Boolean): Text = If(more, untilDone(false), "done")`. -/
def untilDone : UserFunction :=
  ⟨"untilDone", [("more", .boolean)], .text,
    .call "If" [.name "more" 0, .call "untilDone" [.boolean false] 0, .text "done"] 0⟩

def recurring : Environment Unit :=
  ⟨.empty, .empty, Fields.empty.insert "untilDone" untilDone, .empty, .never, .standard⟩

/-- `untilDone(true)` opens two calls, one inside the other. -/
theorem calls_bounded_recurring :
    2 ≤ maxCallDepth ∧
      (∀ a, Activation.Reaches recurring 2 ⟨0, [], .call "untilDone" [.boolean true] 0, ⟨0, ()⟩⟩ a →
        a.exceeds recurring 2 = false) ∧
      (evalAt recurring maxCallDepth [] (.call "untilDone" [.boolean true] 0)).run.run ⟨0, ()⟩ =
        (.ok (.text "done"), ⟨9, ()⟩) := by
  have hle : 2 ≤ maxCallDepth := by decide
  have hclear : Activation.clear recurring 2 7
      ⟨0, [], .call "untilDone" [.boolean true] 0, ⟨0, ()⟩⟩ = true := rfl
  have hnone := fun a => Activation.exceeds_of_clear (b := a) hclear
  exact ⟨hle, hnone, (calls_bounded recurring 2 [] _ ⟨0, ()⟩).2.2.2 maxCallDepth hle hnone⟩

end FormulaShell.Formula
