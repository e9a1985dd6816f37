import FormulaShell.Proofs.Formula.Lasting

namespace FormulaShell

open Number

/-- All numbers in a value are finite, at any depth. -/
inductive Value.Finite : Value → Prop where
  | plain {v : Value} : v.isPlain → Finite v
  | record {r : Record} : (∀ p ∈ r.entries, Finite p.2) → Finite (.record r)
  | table {t : Table} : (∀ r ∈ t, Finite (.record r)) → Finite (.table t)

namespace Value.Finite

open Formula (Entrywise)

theorem number {x : Float} (h : Finite (.number x)) : isFinite x := by
  cases h with
  | plain h => exact h

theorem entries {r : Record} (h : Finite (.record r)) : ∀ p ∈ r.entries, Finite p.2 := by
  cases h with
  | plain h => cases h
  | record h => exact h

theorem rows {t : Table} (h : Finite (.table t)) : ∀ r ∈ t, Finite (.record r) := by
  cases h with
  | plain h => cases h
  | table h => exact h

theorem entrywise : Entrywise Finite := fun _ => ⟨entries, .record⟩

theorem ofValues {vs : List Value} (h : ∀ v ∈ vs, v.Finite) :
    Finite (.table (Table.ofValues vs)) :=
  .table (entrywise.ofValues h)

end Value.Finite

/-- The number is below `2 ^ 952`, so that the steps of a sequence stay within half a unit of the
greatest number. -/
def Number.isModest (x : Float) : Bool :=
  match parts x with
  | .finite _ _ q => q < 900
  | _ => false

theorem Number.atMost_of_isModest {x : Float} (h : isModest x = true) :
    AtMost (2 ^ (952 : ℤ)) x := by
  unfold isModest at h
  split at h
  next m q hp =>
    refine atMost_of_parts hp fun hc => ?_
    have hq : q ≤ 899 := Int.le_of_lt_add_one (of_decide_eq_true h)
    calc (m : ℚ) * 2 ^ q ≤ 2 ^ 53 * 2 ^ (899 : ℤ) :=
          mul_le_mul (by exact_mod_cast hc.small.le) (zpow_le_zpow_right₀ one_le_two hq)
            (two_zpow_pos q).le (by positivity)
      _ = 2 ^ (952 : ℤ) := by
          rw [← zpow_natCast, ← zpow_add₀ two_ne_zero]
          rfl
  next => cases h

namespace Formula

theorem steps_finite {x : Float} (h : AtMost (2 ^ (952 : ℤ)) x) :
    Steps Value.Finite (.number x) := by
  refine steps_of_add .plain .ofValues fun hfirst hx hi => .plain ?_
  cases hx
  have hindex : AtMost (2 ^ (16 : ℤ)) (Float.ofNat _) :=
    atMost_ofNat (by exact_mod_cast hi) (by decide) (by decide)
  refine isFinite_add hfirst.number (h.mul hindex (safe_of_le le_rfl ?_ (by decide) (by decide)))
  rw [← zpow_add₀ two_ne_zero]
  exact two_zpow_lt.mpr (by decide)

theorem stable_finite : Stable Value.Finite where
  plain := .plain
  neg h := .plain (isFinite_neg h.number)
  abs h := .plain (isFinite_abs h.number)
  sqrt h hx := .plain (isFinite_sqrt h.number hx)
  steps := steps_finite (atMost_of_isModest (by decide +kernel))
  empty := Value.Finite.entrywise.empty
  get? := Value.Finite.entrywise.get?
  insert := Value.Finite.entrywise.insert
  row h hr := h.rows _ hr
  column := .ofValues
  union h := .table (Value.Finite.entrywise.union (.plain rfl) h)
  sublist h hu := .table fun r hr => h.rows r (hu.subset hr)

def Expr.isModest : Expr → Bool
  | .number x => Number.isModest x
  | .unary .neg e => e.isModest
  | _ => false

/-- A literal is finite, and a sequence has an increment of its own only as a modest literal. -/
def Expr.inRange (functions : Fields UserFunction) : Expr → Bool
  | .number x => isFinite x
  | .call f [_, _, step] _ => f != "Sequence" || functions.contains f || step.isModest
  | _ => true

theorem Builtin.name_of_ofName? {s : String} {b : Builtin} (h : ofName? s = some b) :
    b.name = s := by
  have hb := List.find?_some h
  exact beq_iff_eq.mp hb

section

variable {σ : Type}

theorem returns_modest {env : Environment σ} {enter : Enter σ} {frames : Frames} {e : Expr}
    (h : e.isModest) :
    Returns (fun v => ∃ x, v = .number x ∧ AtMost (2 ^ (952 : ℤ)) x)
      (eval env enter frames e) := by
  induction e with
  | number x =>
    exact (returns_true _).bind fun _ _ => returns_pure ⟨x, rfl, atMost_of_isModest h⟩
  | unary op e ih =>
    cases op with
    | not => cases h
    | neg =>
      refine (returns_true _).bind fun _ _ => (ih h).map fun v hv => ?_
      obtain ⟨x, rfl, hx⟩ := hv
      exact ⟨-x, rfl, hx.neg⟩
  | _ => cases h

theorem fits_of_inRange {env : Environment σ} {t : Expr} (h : t.inRange env.functions) :
    t.Fits Value.Finite env := by
  cases t with
  | number x => exact .plain h
  | call f args offset =>
    rintro hc n start step rfl enter frames
    obtain ⟨hnone, hname, -⟩ := builtin_of_callee hc
    have hname : f = "Sequence" := (Builtin.name_of_ofName? hname).symm
    have hstep : step.isModest := by
      simpa [Expr.inRange, hname ▸ hnone, hname, Fields.contains] using h
    refine (returns_modest hstep).imp fun v hv => ?_
    obtain ⟨x, rfl, hx⟩ := hv
    exact steps_finite hx
  | _ => trivial

/-- Every value that an evaluation finishes with holds finite numbers only, if the values that it is
given for names do and the literals and increments of the formula and of all functions are in
range, whether or not it may be interrupted. -/
theorem finite_evaluate {globals : Fields Value} {bindings : Record}
    {functions : Fields UserFunction} {poll : Poll σ} {e : Expr} {world : σ} {v : Value}
    (hg : ∀ n w, globals.get? n = some w → w.Finite)
    (hb : ∀ n w, bindings.get? n = some w → w.Finite)
    (hf : ∀ n f, functions.get? n = some f → ∀ t ∈ f.body.parts, t.inRange functions)
    (he : ∀ t ∈ e.parts, t.inRange functions)
    (h : (evaluate ⟨globals, bindings, functions, .empty, poll, .standard⟩ e world).1 = .ok v) :
    v.Finite :=
  stable_finite.evaluate ⟨hg, hb, rfl, rfl⟩ (fun n f hn t ht => fits_of_inRange (hf n f hn t ht))
    (fun t ht => fits_of_inRange (he t ht)) world h

end

def countdown : UserFunction :=
  ⟨"Countdown", [("n", .number)], .table,
    .call "Sequence" [.name "n" 0, .name "n" 0, .unary .neg (.number 1.0)] 0⟩

theorem finite_evaluate_countdown : Value.Finite
    (.table (Table.ofValues [.number 2.0, .number 1.0])) := by
  refine @finite_evaluate Unit .empty .empty ⟨[("Countdown", countdown)]⟩ .never
    (.call "Countdown" [.number 2.0] 0) () _ nofun nofun (fun n f h => ?_) (by decide +kernel)
    (by rfl)
  obtain ⟨rfl, rfl⟩ := Prod.mk.inj (List.mem_singleton.mp (Fields.mem_of_get? h))
  decide +kernel

/-- A literal can be too large for a number, and so can what an increment comes to. -/
theorem infinite_evaluate :
    (∃ v, (evaluate ⟨.empty, .empty, .empty, .empty, .never, .standard⟩ (.number 1e999) ()).1 =
      .ok v ∧ ¬ v.Finite) ∧
    (∃ v, (evaluate ⟨.empty, .empty, .empty, .empty, .never, .standard⟩
      (.call "Sequence" [.number 2.0, .number 1e308, .number 1e308] 0) ()).1 = .ok v ∧
      ¬ v.Finite) := by
  refine ⟨⟨.number 1e999, rfl, fun h => ?_⟩, ⟨.table (Table.ofValues
    [.number (1e308 + 1e308 * Float.ofNat 0), .number (1e308 + 1e308 * Float.ofNat 1)]), ?_, ?_⟩⟩
  · exact absurd h.number (by decide +kernel)
  · rfl
  · intro h
    have hrow := h.rows _ (List.mem_cons_of_mem _ (List.mem_singleton_self _))
    have hlast := hrow.entries _ (List.mem_singleton_self _)
    exact absurd hlast.number (by decide +kernel)

end Formula

end FormulaShell
