import FormulaShell.Proofs.Formula.Locality
import FormulaShell.Proofs.Formula.Visits

namespace FormulaShell.Formula

variable {σ : Type}

/-- The interval divides the range of the counter, so polls stay regular where it wraps around. -/
theorem ticks_mod (p : Progress σ) : p.ticks.toNat % pollInterval = p.visited % pollInterval := by
  rw [Progress.ticks, UInt32.toNat_ofNat']
  exact Nat.mod_mod_of_dvd _ (by decide)

structure Polled (σ : Type) where
  world : σ
  polls : Nat

/-- A function of the host that has nothing to do with polls. -/
def HostFunction.polled (h : HostFunction σ) : HostFunction (Polled σ) where
  arity := h.arity
  run vs w :=
    let (v, world) := h.run vs w.world
    (v, { w with world := world })

/-- Polls that are answered in turn. -/
def Poll.answering (answers : Nat → Option Interrupt) : Poll (Polled σ) :=
  fun w => (answers w.polls, { w with polls := w.polls + 1 })

def Environment.polled (env : Environment σ) (poll : Poll (Polled σ)) :
    Environment (Polled σ) where
  globals := env.globals
  bindings := env.bindings
  functions := env.functions
  hosts := ⟨env.hosts.entries.map fun p => (p.1, p.2.polled)⟩
  poll := poll
  faults := env.faults

/-- The first poll with a reason to stop, of so many from a given one on. -/
def firstStop? (answers : Nat → Option Interrupt) (poll count : Nat) : Option (Nat × Interrupt) :=
  (List.range' poll count).findSome? fun j => (answers j).map (j, ·)

/-- How many polls there are by a visit, the one at the start included. -/
def pollsBy (visited : Nat) : Nat := visited / pollInterval + 1

section

variable {answers : Nat → Option Interrupt}

theorem firstStop?_one (j : Nat) : firstStop? answers j 1 = (answers j).map (j, ·) := by
  rw [firstStop?, List.range'_one, List.findSome?_singleton]

theorem firstStop?_add (j m n : Nat) :
    firstStop? answers j (m + n) = (firstStop? answers j m).or (firstStop? answers (j + m) n) := by
  have hr : List.range' j (m + n) = List.range' j m ++ List.range' (j + m) n := by
    rw [List.range'_append_1]
  rw [firstStop?, hr, List.findSome?_append]
  rfl

theorem pollsBy_mono {m n : Nat} (h : m ≤ n) : pollsBy m ≤ pollsBy n :=
  Nat.add_le_add_right (Nat.div_le_div_right h) 1

theorem firstStop?_trans {l m n : Nat} (hl : l ≤ m) (hn : m ≤ n) :
    firstStop? answers (pollsBy l) (pollsBy n - pollsBy l) =
      (firstStop? answers (pollsBy l) (pollsBy m - pollsBy l)).or
        (firstStop? answers (pollsBy m) (pollsBy n - pollsBy m)) := by
  have hlm := pollsBy_mono hl
  have hmn := pollsBy_mono hn
  have hcount : pollsBy n - pollsBy l = (pollsBy m - pollsBy l) + (pollsBy n - pollsBy m) := by
    omega
  have hnext : pollsBy l + (pollsBy m - pollsBy l) = pollsBy m := by omega
  rw [hcount, firstStop?_add, hnext]

theorem pollsBy_succ_of_mod {n : Nat} (h : (n + 1) % pollInterval = 0) :
    pollsBy (n + 1) = pollsBy n + 1 ∧ pollsBy n * pollInterval = n + 1 := by
  simp only [pollsBy, pollInterval] at h ⊢
  omega

theorem pollsBy_succ_of_not_mod {n : Nat} (h : (n + 1) % pollInterval ≠ 0) :
    pollsBy (n + 1) = pollsBy n := by
  simp only [pollsBy, pollInterval] at h ⊢
  omega

end

/-- What there is of a whole course if a poll stops it, which is at the visit that the poll is due
at. -/
def CutAt {α : Type} (stop? : Option (Nat × Interrupt))
    (whole cut : Except Interrupt α × Progress (Polled σ)) : Prop :=
  match stop? with
  | none => cut = whole
  | some (j, i) =>
    cut.1 = .error i ∧ cut.2.visited = j * pollInterval ∧ cut.2.world.polls = j + 1

/-- From any visit on, `a` comes to an end, and `b` does what `a` does until a poll stops it. -/
def Cuts (answers : Nat → Option Interrupt) (α : Type) (a b : Eval (Polled σ) α) : Prop :=
  ∀ n world, ∃ v m world', n ≤ m ∧
    (∀ polls, a.run.run ⟨n, world, polls⟩ = (.ok v, ⟨m, world', polls⟩)) ∧
    CutAt (firstStop? answers (pollsBy n) (pollsBy m - pollsBy n))
      (.ok v, ⟨m, world', pollsBy m⟩) (b.run.run ⟨n, world, pollsBy n⟩)

section

variable {answers : Nat → Option Interrupt} {env : Environment σ}

theorem CutAt.bind {α β : Type} {stop? later? : Option (Nat × Interrupt)} {v : α}
    {p q : Progress (Polled σ)} {b : Eval (Polled σ) α} {g : α → Eval (Polled σ) β}
    {whole : Except Interrupt β × Progress (Polled σ)}
    (hb : CutAt stop? (.ok v, q) (b.run.run p)) (hg : CutAt later? whole ((g v).run.run q)) :
    CutAt (stop?.or later?) whole ((b >>= g).run.run p) := by
  rw [run_bind]
  cases stop? with
  | none =>
    have hb : b.run.run p = (.ok v, q) := hb
    rw [hb]
    exact hg
  | some stop =>
    rcases hc : b.run.run p with ⟨r, q'⟩
    rw [hc] at hb
    obtain ⟨rfl, hvisited, hpolls⟩ : r = .error stop.2 ∧ _ := hb
    exact ⟨rfl, hvisited, hpolls⟩

theorem congruence_cuts :
    Congruence fun (α : Type) (a b : Eval (Polled σ) α) => Cuts answers α a b where
  value v n world := by
    refine ⟨v, n, world, Nat.le_refl n, fun _ => rfl, ?_⟩
    rw [Nat.sub_self]
    rfl
  bind := by
    intro α β a b f g ha hf n world
    obtain ⟨v, m, world', hm, hrun, hcut⟩ := ha n world
    obtain ⟨u, l, world'', hl, hrun', hcut'⟩ := hf v m world'
    refine ⟨u, l, world'', Nat.le_trans hm hl, fun polls => ?_, ?_⟩
    · rw [run_bind, hrun]
      exact hrun' polls
    · rw [firstStop?_trans hm hl]
      exact hcut.bind hcut'

theorem cutAt_pause {n polls : Nat} {world : σ} (h : polls * pollInterval = n) :
    CutAt (firstStop? answers polls 1) (.ok (), ⟨n, world, polls + 1⟩)
      ((pause (env.polled (.answering answers))).run.run ⟨n, world, polls⟩) := by
  have ha : (env.polled (.answering answers)).poll ⟨world, polls⟩ =
      (answers polls, ⟨world, polls + 1⟩) := rfl
  rw [run_pause, firstStop?_one, ha]
  cases answers polls with
  | none => rfl
  | some i => exact ⟨rfl, h.symm, rfl⟩

theorem cuts_visit :
    Cuts answers Unit (visit (env.polled .never)) (visit (env.polled (.answering answers))) := by
  intro n world
  refine ⟨(), n + 1, world, Nat.le_succ n, fun polls => run_visit_never rfl _, ?_⟩
  rw [run_visit, ticks_mod]
  by_cases h : (n + 1) % pollInterval = 0
  · obtain ⟨hnext, hdue⟩ := pollsBy_succ_of_mod h
    rw [if_pos h, hnext, Nat.add_sub_cancel_left]
    exact cutAt_pause hdue
  · rw [if_neg h, pollsBy_succ_of_not_mod h, Nat.sub_self]
    rfl

theorem exists_of_polled_host {poll : Poll (Polled σ)} {name : String}
    {h : HostFunction (Polled σ)} (hh : (env.polled poll).hosts.get? name = some h) :
    ∃ g : HostFunction σ, h = g.polled := by
  obtain ⟨globals, bindings, functions, ⟨entries⟩, _, faults⟩ := env
  change Fields.find? name (entries.map fun p => (p.1, p.2.polled)) = some h at hh
  induction entries with
  | nil => cases hh
  | cons p entries ih =>
    rw [List.map_cons, Fields.find?] at hh
    split at hh
    · exact ⟨p.2, (Option.some.inj hh).symm⟩
    · exact ih hh

theorem cuts_applyHost {poll poll' : Poll (Polled σ)} (name : String) (g : HostFunction σ)
    (vs : List Value) :
    Cuts answers Value (applyHost (env.polled poll) name g.polled vs)
      (applyHost (env.polled poll') name g.polled vs) := by
  rw [applyHost, applyHost]
  split
  · exact congruence_cuts.value _
  · split
    · intro n world
      refine ⟨(g.run vs world).1, n, (g.run vs world).2, Nat.le_refl n, fun polls => rfl, ?_⟩
      rw [Nat.sub_self]
      rfl
    · exact congruence_cuts.value _

theorem peers_polled : Peers (fun (α : Type) (a b : Eval (Polled σ) α) => Cuts answers α a b)
    (env.polled .never) (env.polled (.answering answers)) where
  visit := cuts_visit
  host := by
    intro name h vs hh
    obtain ⟨g, rfl⟩ := exists_of_polled_host hh
    exact cuts_applyHost name g vs
  tooDeep := rfl
  missingArgument := rfl

theorem cuts_evalAt (depth : Nat) (frames : Frames) (e : Expr) :
    Cuts answers Value (evalAt (env.polled .never) depth frames e)
      (evalAt (env.polled (.answering answers)) depth frames e) := by
  refine congruence_cuts.evalAt peers_polled depth (s := ⟨true, frames, e⟩) fun s _ => ?_
  -- Polls are no answer to a name or to a call.
  obtain ⟨named, frames, e⟩ := s
  cases e with
  | name | call => rfl
  | _ => trivial

end

def course (env : Environment σ) (e : Expr) (world : σ) : Except Interrupt Value × Progress σ :=
  (pause env >>= fun _ => evalAt env maxCallDepth [] e).run.run ⟨0, world⟩

theorem evaluate_eq_course (env : Environment σ) (e : Expr) (world : σ) :
    evaluate env e world = ((course env e world).1, (course env e world).2.world) := rfl

theorem course_never (env : Environment σ) (e : Expr) (world : Polled σ) :
    course (env.polled .never) e world =
      (evalAt (env.polled .never) maxCallDepth [] e).run.run ⟨0, world⟩ := by
  rw [course, run_bind, run_pause]
  rfl

theorem cutAt_course (env : Environment σ) (answers : Nat → Option Interrupt) (e : Expr)
    (world : σ) :
    ∃ v n after, course (env.polled .never) e ⟨world, 0⟩ = (.ok v, ⟨n, after, 0⟩) ∧
      CutAt (firstStop? answers 0 (pollsBy n)) (.ok v, ⟨n, after, pollsBy n⟩)
        (course (env.polled (.answering answers)) e ⟨world, 0⟩) := by
  have hcuts : Cuts answers Value (evalAt (env.polled .never) maxCallDepth [] e)
      (evalAt (env.polled (.answering answers)) maxCallDepth [] e) := cuts_evalAt maxCallDepth [] e
  obtain ⟨v, n, after, -, hwhole, hcut⟩ := hcuts 0 world
  refine ⟨v, n, after, ?_, ?_⟩
  · rw [course_never]
    exact hwhole 0
  · have hstart : CutAt (firstStop? answers 0 1) (.ok (), ⟨0, world, 1⟩)
        ((pause (env.polled (.answering answers))).run.run ⟨0, world, 0⟩) := cutAt_pause rfl
    have hcount : pollsBy n = 1 + (pollsBy n - pollsBy 0) := by
      have := pollsBy_mono (Nat.zero_le n)
      simp only [pollsBy, pollInterval] at this ⊢
      omega
    rw [hcount, firstStop?_add, ← hcount]
    exact hstart.bind hcut

/-- An evaluation whose polls are answered in turn comes to the value of one that is left alone,
unless one of the polls by its last visit stops it: then it ends with the reason that the first such
poll gives, at the visit that this poll is due at. There are as many visits as expressions to be
evaluated. -/
theorem evaluate_answering (env : Environment σ) (answers : Nat → Option Interrupt) (e : Expr)
    (world : σ) :
    let alone := evaluate (env.polled .never) e ⟨world, 0⟩
    let n := (course (env.polled .never) e ⟨world, 0⟩).2.visited
    let polled := evaluate (env.polled (.answering answers)) e ⟨world, 0⟩
    let visited := (course (env.polled (.answering answers)) e ⟨world, 0⟩).2.visited
    ∃ v, alone.1 = .ok v ∧
      (∀ u after k, (Plan.part [] e).Evaluates (env.polled .never) maxCallDepth ⟨world, 0⟩ u after k ↔
        u = v ∧ after = alone.2 ∧ k = n) ∧
      match firstStop? answers 0 (n / pollInterval + 1) with
      | some (j, i) =>
        polled.1 = .error i ∧ visited = j * pollInterval ∧ polled.2.polls = j + 1
      | none =>
        polled.1 = .ok v ∧ visited = n ∧ polled.2 = ⟨alone.2.world, n / pollInterval + 1⟩ := by
  obtain ⟨v, n, after, halone, hcut⟩ := cutAt_course env answers e world
  simp only [evaluate_eq_course, halone]
  refine ⟨v, rfl, fun u after' k => ?_, ?_⟩
  · rw [evaluates_iff rfl 0, ← course_never, halone, Nat.zero_add]
    constructor
    · rintro ⟨⟩
      exact ⟨rfl, rfl, rfl⟩
    · rintro ⟨rfl, rfl, rfl⟩
      rfl
  · change CutAt (firstStop? answers 0 (n / pollInterval + 1)) _ _ at hcut
    cases hs : firstStop? answers 0 (n / pollInterval + 1) with
    | none =>
      rw [hs] at hcut
      have hcut : course (env.polled (.answering answers)) e ⟨world, 0⟩ =
          (.ok v, ⟨n, after, pollsBy n⟩) := hcut
      rw [hcut]
      exact ⟨rfl, rfl, rfl⟩
    | some stop =>
      rw [hs] at hcut
      exact hcut

def longTable : Expr := .call "IsError" [.table (List.replicate 200 (.boolean true))] 0

def bare : Environment Unit := ⟨.empty, .empty, .empty, .empty, .never, .standard⟩

/-- The second poll comes before the last of the items, and stops the evaluation. An interruption is
no value that `IsError` could answer for. -/
theorem evaluate_longTable :
    let second (j : Nat) := if j = 1 then some Interrupt.timedOut else none
    let third (j : Nat) := if j = 2 then some Interrupt.timedOut else none
    let alone := evaluate (bare.polled .never) longTable ⟨(), 0⟩
    (∃ v, (Plan.part [] longTable).Evaluates (bare.polled .never) maxCallDepth ⟨(), 0⟩ v alone.2
      202) ∧
      (evaluate (bare.polled (.answering second)) longTable ⟨(), 0⟩).1 = .error .timedOut ∧
      (course (bare.polled (.answering second)) longTable ⟨(), 0⟩).2.visited = 128 ∧
      (evaluate (bare.polled (.answering third)) longTable ⟨(), 0⟩).1 = alone.1 := by
  intro second third alone
  have hvisits : (course (bare.polled .never) longTable ⟨(), 0⟩).2.visited = 202 := by
    decide +kernel
  have hsecond := evaluate_answering bare second longTable ()
  have hthird := evaluate_answering bare third longTable ()
  simp only [hvisits] at hsecond hthird
  obtain ⟨v, -, hcount, hstopped, hat, -⟩ := hsecond
  obtain ⟨v', halone, -, hthird, -⟩ := hthird
  exact ⟨⟨v, (hcount _ _ _).mpr ⟨rfl, rfl, rfl⟩⟩, hstopped, hat, hthird.trans halone.symm⟩

end FormulaShell.Formula
