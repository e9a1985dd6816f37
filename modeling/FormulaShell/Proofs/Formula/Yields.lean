import FormulaShell.Formula.Eval

namespace FormulaShell.Formula

variable {σ α β : Type}

/-- The action finishes with the value, wherever it starts. -/
def Yields (a : Eval σ α) (v : α) : Prop := ∀ p, (a.run.run p).1 = .ok v

theorem yields_pure (v : α) : Yields (pure v : Eval σ α) v := fun _ => rfl

theorem run_bind {ε S : Type} (a : ExceptT ε (StateM S) α) (f : α → ExceptT ε (StateM S) β) (p : S) :
    (a >>= f).run.run p =
      match a.run.run p with
      | (.ok v, q) => (f v).run.run q
      | (.error i, q) => (.error i, q) := by
  rw [ExceptT.run_bind, StateT.run_bind]
  obtain ⟨_ | _, q⟩ := a.run.run p <;> rfl

def Finishes (a : Eval σ α) (p : Progress σ) (v : α) (q : Progress σ) : Prop :=
  a.run.run p = (.ok v, q)

theorem Finishes.run_bind {a : Eval σ α} {p q : Progress σ} {v : α} (h : Finishes a p v q)
    (f : α → Eval σ β) : (a >>= f).run.run p = (f v).run.run q := by
  rw [Formula.run_bind, h]

theorem Yields.bind {a : Eval σ α} {f : α → Eval σ β} {v : α} {w : β} (ha : Yields a v)
    (hf : Yields (f v) w) : Yields (a >>= f) w := by
  intro p
  have h := ha p
  rw [run_bind]
  rcases hp : a.run.run p with ⟨r, q⟩
  rw [hp] at h
  cases h
  exact hf q

theorem run_pause (env : Environment σ) (p : Progress σ) :
    (pause env).run.run p =
      (match (env.poll p.world).1 with
        | some i => .error i
        | none => .ok (), { p with world := (env.poll p.world).2 }) := by
  have h : (pause env).run.run p =
      (match (env.poll p.world).1 with
        | some i => throw i
        | none => pure () : Eval σ Unit).run.run { p with world := (env.poll p.world).2 } := rfl
  rw [h]
  cases (env.poll p.world).1 <;> rfl

theorem yields_pause {env : Environment σ} (h : env.poll = .never) : Yields (pause env) () := by
  intro p
  rw [run_pause, h]
  rfl

theorem run_visit (env : Environment σ) (p : Progress σ) :
    (visit env).run.run p =
      (if ({ p with visited := p.visited + 1 } : Progress σ).ticks.toNat % pollInterval = 0 then
        pause env else pure () : Eval σ Unit).run.run { p with visited := p.visited + 1 } := rfl

theorem yields_visit {env : Environment σ} (h : env.poll = .never) : Yields (visit env) () := by
  intro p
  rw [run_visit]
  split
  · exact yields_pause h _
  · rfl

def Agree (a b : Eval σ α) : Prop := ∃ v, Yields a v ∧ Yields b v

/-- A relation between evaluations that values and sequences keep. -/
structure Congruence (R : ∀ α : Type, Eval σ α → Eval σ α → Prop) : Prop where
  value {α : Type} (v : α) : R α (pure v) (pure v)
  bind {α β : Type} {a b : Eval σ α} {f g : α → Eval σ β} :
    R α a b → (∀ v, R β (f v) (g v)) → R β (a >>= f) (b >>= g)

theorem congruence_eq : Congruence fun (α : Type) (a b : Eval σ α) => a = b where
  value _ := rfl
  bind := by
    rintro α β a _ f g rfl hf
    rw [funext hf]

theorem congruence_agree : Congruence fun (α : Type) (a b : Eval σ α) => Agree a b where
  value v := ⟨v, yields_pure v, yields_pure v⟩
  bind := by
    rintro α β a b f g ⟨v, ha, hb⟩ hf
    obtain ⟨w, hfv, hgv⟩ := hf v
    exact ⟨w, ha.bind hfv, hb.bind hgv⟩

namespace Congruence

variable {R : ∀ α : Type, Eval σ α → Eval σ α → Prop} (hR : Congruence R)
include hR

theorem map {a b : Eval σ α} (h : R α a b) (f : α → β) :
    R β (a >>= fun v => pure (f v)) (b >>= fun v => pure (f v)) :=
  hR.bind h fun v => hR.value (f v)

theorem mapM {f g : α → Eval σ β} {xs : List α} (h : ∀ x ∈ xs, R β (f x) (g x)) :
    R (List β) (xs.mapM f) (xs.mapM g) := by
  induction xs with
  | nil => exact hR.value []
  | cons x xs ih =>
    rw [List.mapM_cons, List.mapM_cons]
    exact hR.bind (h x (by simp)) fun v => hR.map (ih fun y hy => h y (by simp [hy])) (v :: ·)

theorem filterRows {test test' : Record → Eval σ (Except String Bool)} {rows : Table}
    (h : ∀ row, R _ (test row) (test' row)) (kept : Table) :
    R _ (Formula.filterRows test kept rows) (Formula.filterRows test' kept rows) := by
  induction rows generalizing kept with
  | nil => exact hR.value _
  | cons row rows ih =>
    refine hR.bind (h row) fun v => ?_
    cases v with
    | error m => exact hR.value _
    | ok b =>
      cases b with
      | true => exact ih (row :: kept)
      | false => exact ih kept

end Congruence

end FormulaShell.Formula
