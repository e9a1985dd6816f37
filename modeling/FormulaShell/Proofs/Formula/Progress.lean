import FormulaShell.Proofs.Formula.Locality

namespace FormulaShell.Formula

variable {σ : Type} {env : Environment σ} {frames : Frames} {s t : Site}

def Environment.arity? (env : Environment σ) (name : String) : Option Arity :=
  match env.functions.get? name with
  | some f => some f.arity
  | none =>
    match env.hosts.get? name with
    | some h => some h.arity
    | none => (Builtin.ofName? name).map Builtin.arity

/-- The names and functions that are known within some scopes. -/
def Environment.scope (env : Environment σ) (frames : Frames) : Scope where
  isName n := frames.any (·.contains n) || env.bindings.contains n || env.globals.contains n
  arity? := env.arity?

def Site.Checked (env : Environment σ) (s : Site) : Prop :=
  check (env.scope s.frames) s.named s.expr = .ok ()

/-- The bodies of all functions pass the check where their parameters are known. -/
def Environment.BodiesChecked (env : Environment σ) : Prop :=
  ∀ g u, env.functions.get? g = some u → ∀ scope : Record,
    (∀ p ∈ u.params, scope.contains p.1) → Site.Checked env ⟨true, [scope], u.body⟩

/-- A call has a function that takes its arguments. A name has a value, unless it stands in a row
argument. -/
def Site.Answered (env : Environment σ) (s : Site) : Prop :=
  match s.expr with
  | .name n _ => s.named → (env.scope s.frames).isName n
  | .call f args _ => ∀ answer, callee env f args.length ≠ .fault answer
  | _ => True

theorem Environment.scope_cons {row : Record} {n : String} (h : (env.scope frames).isName n) :
    (env.scope (row :: frames)).isName n := by
  simp only [Environment.scope, List.any_cons, Bool.or_eq_true] at h ⊢
  exact h.imp_left fun h => h.imp_left .inr

theorem Site.Checked.next (h : s.Checked env) (hb : env.BodiesChecked)
    (hn : s.Next env.functions t) : t.Checked env := by
  cases hn with
  | field hm => exact checkFields_ok.mp h _ hm
  | item hm | link hm => exact checkAll_ok.mp h _ hm
  | unary | percent | owner => exact h
  | left => exact (check_binary_ok.mp h).1
  | right => exact (check_binary_ok.mp h).2
  | firstArg =>
    obtain ⟨-, -, -, hargs⟩ := check_call_ok.mp h
    exact (checkArgs_ok.mp hargs).1
  | laterArg hm =>
    obtain ⟨-, -, -, hargs⟩ := check_call_ok.mp h
    exact (checkArgs_ok.mp hargs).2 _ hm
  | @rowArg named frames f _ _ _ e row hf hm =>
    obtain ⟨-, -, -, hargs⟩ := check_call_ok.mp h
    have hrow : check (env.scope frames) false e = .ok () := by
      simpa [hf] using (checkArgs_ok.mp hargs).2 e hm
    exact check_mono (fun _ => Environment.scope_cons) (fun _ _ => id) hrow
  | body hu hs => exact hb _ _ hu _ hs

theorem Site.Checked.reaches (h : s.Checked env) (hb : env.BodiesChecked)
    (hr : s.Reaches env.functions t) : t.Checked env := by
  induction hr with
  | refl => exact h
  | tail _ hn ih => exact ih.next hb hn

/-- The check and the evaluation look for a function in the same places in the same order. -/
theorem callee_ne_fault {name : String} {count : Nat} {arity : Arity}
    (h : env.arity? name = some arity) (hc : arity.admits count) (answer : Value) :
    callee env name count ≠ .fault answer := by
  rw [Environment.arity?] at h
  rw [callee]
  cases hf : env.functions.get? name with
  | some f =>
    simp only [hf, Option.some.injEq] at h
    simp [h, hc]
  | none =>
    cases hh : env.hosts.get? name with
    | some host => simp
    | none =>
      simp only [hf, hh, Option.map_eq_some_iff] at h
      obtain ⟨b, hb, rfl⟩ := h
      simp [hb, hc]

theorem Site.Checked.answered (h : s.Checked env) : s.Answered env := by
  obtain ⟨named, frames, e⟩ := s
  cases e with
  | name n offset => exact check_name_ok.mp h
  | call f args offset =>
    obtain ⟨arity, ha, hc, -⟩ := check_call_ok.mp h
    exact callee_ne_fault ha hc
  | _ => trivial

section

variable {faults : Faults}

theorem lookup_of_isName {n : String} (h : (env.scope frames).isName n) :
    lookup env frames n = lookup { env with faults := faults } frames n := by
  rw [lookup, lookup]
  cases hf : frames.findSome? (·.get? n) with
  | some v => rfl
  | none =>
    cases hb : env.bindings.get? n with
    | some v => rfl
    | none =>
      have hframes : frames.any (·.contains n) = false := by
        rw [List.any_eq_false]
        intro r hr
        simp [Fields.contains, List.findSome?_eq_none_iff.mp hf r hr]
      have hbindings : env.bindings.contains n = false := by simp [Fields.contains, hb]
      have hg : env.globals.contains n := by
        simpa only [Environment.scope, hframes, hbindings, Bool.false_or] using h
      obtain ⟨v, hv⟩ := Option.isSome_iff_exists.mp hg
      simp only [hv, Option.getD_some]

theorem callee_of_ne_fault {name : String} {count : Nat}
    (h : ∀ answer, callee env name count ≠ .fault answer) :
    callee env name count = callee { env with faults := faults } name count := by
  rw [callee] at h ⊢
  rw [callee]
  cases hf : env.functions.get? name with
  | some f =>
    by_cases hc : f.arity.admits count
    · simp only [if_pos hc]
    · simp [hf, hc] at h
  | none =>
    cases hh : env.hosts.get? name with
    | some host => rfl
    | none =>
      cases hb : Builtin.ofName? name with
      | none => simp [hf, hh, hb] at h
      | some b =>
        by_cases hc : b.arity.admits count
        · simp only [if_pos hc]
        · simp [hf, hh, hb, hc] at h

theorem Site.Answered.sameAnswer (h : s.Answered env)
    (hn : s.named = false → ∀ n offset, s.expr = .name n offset →
      env.faults.unknownName n = faults.unknownName n) :
    s.SameAnswer env { env with faults := faults } := by
  obtain ⟨named, frames, e⟩ := s
  cases e with
  | name n offset =>
    cases named with
    | true => exact lookup_of_isName (h rfl)
    | false =>
      have hu : env.faults.unknownName n = faults.unknownName n := hn rfl n offset rfl
      change lookup env frames n = lookup { env with faults := faults } frames n
      rw [lookup, lookup, hu]
  | call f args offset => exact callee_of_ne_fault h
  | _ => trivial

end

end FormulaShell.Formula
