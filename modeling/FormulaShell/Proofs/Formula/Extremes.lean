import Mathlib.Data.List.Induction
import FormulaShell.Proofs.Formula.Aggregates
import FormulaShell.Proofs.Formula.Comparison
import FormulaShell.Proofs.Formula.Stability

namespace FormulaShell.Formula

open FormulaShell.Number

def ExceedsExactly (m n : Numeric) : Prop :=
  ∃ x y, m = .decimal x ∧ n = .decimal y ∧ y.units < x.units

theorem numericOrder_cases {m n : Numeric} (hm : m.toValue.IsNumeric) (hn : n.toValue.IsNumeric) :
    (∃ x y, m = .decimal x ∧ n = .decimal y ∧ numericOrder m n = cmp x.units y.units) ∨
      (¬ ExceedsExactly m n ∧ ¬ ExceedsExactly n m ∧
        numericOrder m n = cmp (rank m.toFloat) (rank n.toFloat)) := by
  have number {n : Numeric} (hn : n.toValue.IsNumeric) : n.toFloat.isNaN = false := by
    cases n with
    | binary x => exact hn
    | decimal d => exact isNaN_of_isFinite d.atMost_toNumber.isFinite
  have binary (h : numericOrder m n = (floatOrder? m.toFloat n.toFloat).getD .eq) :
      numericOrder m n = cmp (rank m.toFloat) (rank n.toFloat) := by
    rw [h, floatOrder?_eq (number hm) (number hn), Option.getD_some]
  cases m with
  | binary x => exact .inr ⟨nofun, nofun, binary (by cases n <;> rfl)⟩
  | decimal x =>
    cases n with
    | binary y => exact .inr ⟨nofun, nofun, binary rfl⟩
    | decimal y => exact .inl ⟨x, y, rfl, rfl, (cmp_eq_compare _ _).symm⟩

/-- One number is greater than another as a binary number or as a decimal. -/
def Exceeds (m n : Numeric) : Prop := rank n.toFloat < rank m.toFloat ∨ ExceedsExactly m n

theorem not_exceeds_self (a : Numeric) : ¬ Exceeds a a := by
  rintro (hlt | ⟨x, _, rfl, heq, hlt⟩)
  · exact hlt.false
  · cases heq
    exact hlt.false

/-- All are numbers, and of two decimals the greater one is not the smaller binary number. -/
structure Comparable (ns : List Numeric) : Prop where
  number : ∀ n ∈ ns, n.toValue.IsNumeric
  monotone : ∀ x y, .decimal x ∈ ns → .decimal y ∈ ns → x.units ≤ y.units →
    x.toNumber ≤ y.toNumber

namespace Comparable

variable {ns : List Numeric} (h : Comparable ns) {a b c : Numeric}
include h

theorem mono {ms : List Numeric} (hall : ∀ m ∈ ms, m ∈ ns) : Comparable ms where
  number m hm := h.number m (hall m hm)
  monotone x y hx hy := h.monotone x y (hall _ hx) (hall _ hy)

theorem rank_le {x y : Decimal} (hx : .decimal x ∈ ns) (hy : .decimal y ∈ ns)
    (hxy : x.units ≤ y.units) : rank x.toNumber ≤ rank y.toNumber :=
  (le_iff_rank (isNaN_of_isFinite x.atMost_toNumber.isFinite)
    (isNaN_of_isFinite y.atMost_toNumber.isFinite)).mp (h.monotone x y hx hy hxy)

theorem rank_le_of_exceeds (ha : a ∈ ns) (hb : b ∈ ns) (hab : Exceeds a b) :
    rank b.toFloat ≤ rank a.toFloat := by
  obtain hlt | ⟨x, y, rfl, rfl, hxy⟩ := hab
  · exact hlt.le
  · exact h.rank_le hb ha hxy.le

theorem exceeds_trans (ha : a ∈ ns) (hb : b ∈ ns) (hc : c ∈ ns) (hab : Exceeds a b)
    (hbc : Exceeds b c) : Exceeds a c := by
  have hba := h.rank_le_of_exceeds ha hb hab
  have hcb := h.rank_le_of_exceeds hb hc hbc
  obtain hlt | ⟨x, y, rfl, rfl, hxy⟩ := hab
  · exact .inl (hcb.trans_lt hlt)
  · obtain hlt | ⟨_, z, heq, rfl, hyz⟩ := hbc
    · exact .inl (hlt.trans_le hba)
    · cases heq
      exact .inr ⟨x, z, rfl, rfl, hyz.trans hxy⟩

theorem numericOrder_iff (ha : a ∈ ns) (hb : b ∈ ns) :
    (numericOrder a b = .gt ↔ Exceeds a b) ∧ (numericOrder a b = .lt ↔ Exceeds b a) := by
  obtain ⟨x, y, rfl, rfl, ho⟩ | ⟨hab, hba, ho⟩ :=
    numericOrder_cases (h.number a ha) (h.number b hb)
  · have exceeds {x y : Decimal} (hx : .decimal x ∈ ns) (hy : .decimal y ∈ ns) :
        y.units < x.units ↔ Exceeds (.decimal x) (.decimal y) := by
      refine ⟨fun hlt => .inr ⟨x, y, rfl, rfl, hlt⟩, ?_⟩
      rintro (hlt | ⟨_, _, hx, hy, hlt⟩)
      · exact not_le.mp fun hle => hlt.not_ge (h.rank_le hx hy hle)
      · cases hx
        cases hy
        exact hlt
    rw [ho, cmp_eq_gt_iff, cmp_eq_lt_iff]
    exact ⟨exceeds ha hb, exceeds hb ha⟩
  · rw [ho, cmp_eq_gt_iff, cmp_eq_lt_iff]
    exact ⟨(or_iff_left hab).symm, (or_iff_left hba).symm⟩

end Comparable

theorem extreme_concat {prefer : Ordering} {ns : List Numeric} {best : Numeric}
    (h : extreme prefer ns = some best) (m : Numeric) :
    extreme prefer (ns ++ [m]) = some (if numericOrder m best = prefer then m else best) := by
  cases ns with
  | nil => cases h
  | cons n ns =>
    cases h
    rw [List.cons_append, extreme, List.foldl_concat]

theorem extreme_eq_none_iff {prefer : Ordering} {ns : List Numeric} :
    extreme prefer ns = none ↔ ns = [] := by
  cases ns <;> simp [extreme]

section

variable {prefer : Ordering} (hprefer : prefer = .gt ∨ prefer = .lt) {ns : List Numeric}
include hprefer

theorem Comparable.prefer_trans (h : Comparable ns) {a b c : Numeric} (ha : a ∈ ns) (hb : b ∈ ns)
    (hc : c ∈ ns) (hab : numericOrder a b = prefer) (hbc : numericOrder b c = prefer) :
    numericOrder a c = prefer := by
  obtain rfl | rfl := hprefer
  · rw [(h.numericOrder_iff ha hb).1] at hab
    rw [(h.numericOrder_iff hb hc).1] at hbc
    exact (h.numericOrder_iff ha hc).1.mpr (h.exceeds_trans ha hb hc hab hbc)
  · rw [(h.numericOrder_iff ha hb).2] at hab
    rw [(h.numericOrder_iff hb hc).2] at hbc
    exact (h.numericOrder_iff ha hc).2.mpr (h.exceeds_trans hc hb ha hbc hab)

theorem Comparable.prefer_irrefl (h : Comparable ns) {a : Numeric} (ha : a ∈ ns) :
    numericOrder a a ≠ prefer := by
  obtain rfl | rfl := hprefer
  · exact fun haa => not_exceeds_self a ((h.numericOrder_iff ha ha).1.mp haa)
  · exact fun haa => not_exceeds_self a ((h.numericOrder_iff ha ha).2.mp haa)

/-- The fold never ends below a number that it has passed. -/
theorem not_preferred_of_extreme (h : Comparable ns) {n : Numeric}
    (hn : extreme prefer ns = some n) : ∀ m ∈ ns, numericOrder m n ≠ prefer := by
  -- From the end, where the last number replaces the best one of those before it or does not.
  induction ns using List.reverseRecOn generalizing n with
  | nil => cases hn
  | append_singleton ns c ih =>
    have hall : ∀ m ∈ ns, m ∈ ns ++ [c] := fun m hm => List.mem_append_left [c] hm
    have hc : c ∈ ns ++ [c] := List.mem_append_right ns (List.mem_singleton_self c)
    cases hbest : extreme prefer ns with
    | none =>
      obtain rfl := extreme_eq_none_iff.mp hbest
      cases hn
      exact List.forall_mem_singleton.mpr (h.prefer_irrefl hprefer hc)
    | some best =>
      rw [extreme_concat hbest] at hn
      cases hn
      have hbefore := ih (h.mono hall) hbest
      have hb := hall best (mem_of_extreme hbest)
      rw [List.forall_mem_append, List.forall_mem_singleton]
      split
      next hcb =>
        exact ⟨fun m hm hmc => hbefore m hm (h.prefer_trans hprefer (hall m hm) hc hb hmc hcb),
          h.prefer_irrefl hprefer hc⟩
      next hcb => exact ⟨hbefore, hcb⟩

end


theorem compare_numericOrder {m n : Numeric} (hm : m.toValue.IsNumeric)
    (hn : n.toValue.IsNumeric) : Compare m.toValue n.toValue (numericOrder m n) := by
  obtain ⟨o, ho⟩ := exists_compare hm hn
  have horder := ho.order
  suffices hsame : numericOrder m n = o from hsame ▸ ho
  cases m <;> cases n
  case decimal.decimal => exact Option.some.inj (Except.ok.inj horder)
  all_goals exact congrArg (Option.getD · .eq) (Except.ok.inj horder)

theorem holds_iff_preferred {prefer : Ordering} (hprefer : prefer = .gt ∨ prefer = .lt)
    {m n : Numeric} (hm : m.toValue.IsNumeric) (hn : n.toValue.IsNumeric) :
    Holds (comparisonOf prefer) m.toValue n.toValue ↔ numericOrder m n = prefer := by
  obtain ⟨hlt, hgt, -⟩ := (compare_numericOrder hm hn).holds hm hn
  obtain rfl | rfl := hprefer
  · exact hgt
  · exact hlt

theorem extremum_of_extreme {prefer : Ordering} (hprefer : prefer = .gt ∨ prefer = .lt)
    {ns : List Numeric} (h : Comparable ns) (hne : ns ≠ []) :
    ∃ n ∈ ns, extremeValue prefer ns = n.toValue ∧
      ∀ m ∈ ns, ¬ Holds (comparisonOf prefer) m.toValue n.toValue := by
  obtain ⟨n, hn⟩ := Option.ne_none_iff_exists'.mp fun h => hne (extreme_eq_none_iff.mp h)
  have hmem := mem_of_extreme hn
  refine ⟨n, hmem, by rw [extremeValue, hn], fun m hm => ?_⟩
  rw [holds_iff_preferred hprefer (h.number m hm) (h.number n hmem)]
  exact not_preferred_of_extreme hprefer h hn m hm

/-- The values that are no blanks count as these numbers. -/
def CountAs (vs : List Value) (ns : List Numeric) : Prop :=
  List.Forall₂ (fun v n => numeric v = .ok n) (vs.filter (!·.isBlank)) ns

theorem numerics_eq_ok_iff {vs : List Value} {ns : List Numeric} :
    numerics vs = .ok ns ↔ CountAs vs ns := by
  induction vs generalizing ns with
  | nil => simp [numerics, CountAs, eq_comm]
  | cons v vs ih =>
    rw [numerics, CountAs]
    by_cases hv : v.isBlank
    · rw [if_pos hv, ih, List.filter_cons_of_neg (by simp [hv]), CountAs]
    · rw [if_neg hv, List.filter_cons_of_pos (by simp [hv]), List.forall₂_cons_left_iff]
      have hrest {ns : List Numeric} :
          List.Forall₂ (fun v n => numeric v = .ok n) (vs.filter (!·.isBlank)) ns ↔
            numerics vs = .ok ns := ih.symm
      simp only [hrest]
      cases numeric v with
      | error m => simp
      | ok n => cases numerics vs <;> simp [Except.map, eq_comm]

theorem CountAs.eq_nil_iff {vs : List Value} {ns : List Numeric} (h : CountAs vs ns) :
    ns = [] ↔ ∀ v ∈ vs, v.isBlank := by
  rw [← List.length_eq_zero_iff, ← h.length_eq, List.length_eq_zero_iff, List.filter_eq_nil_iff]
  simp

variable {σ : Type}

theorem finishes_bind_iff {α β : Type} {a : Eval σ α} {f : α → Eval σ β} {p r : Progress σ}
    {w : β} : Finishes (a >>= f) p w r ↔ ∃ v q, Finishes a p v q ∧ Finishes (f v) q w r := by
  rw [Finishes, run_bind]
  rcases ha : a.run.run p with ⟨i | v, q⟩
  · refine iff_of_false nofun ?_
    rintro ⟨v, q', hv, -⟩
    cases ha.symm.trans hv
  · refine ⟨fun h => ⟨v, q, ha, h⟩, ?_⟩
    rintro ⟨v', q', hv, h⟩
    cases ha.symm.trans hv
    exact h

theorem finishes_pure_iff {α : Type} {v w : α} {p q : Progress σ} :
    Finishes (pure v : Eval σ α) p w q ↔ v = w ∧ p = q := by
  change (Except.ok v, p) = (Except.ok w, q) ↔ _
  simp

section

variable (env : Environment σ) (enter : Enter σ) (frames : Frames)

/-- The values that a sum or an extreme counts after the value of its first argument, in the three
forms that its arguments have: the values of a column, those of a formula for each row of a table,
and the arguments themselves. -/
inductive Counts : Value → List Expr → Progress σ → List Value → Progress σ → Prop where
  | column {vs p} : Counts (.table (Table.ofValues vs)) [] p vs p
  | rows {rows e p vs q} :
      Finishes (rows.mapM fun row => eval env enter (rowFrame row :: frames) e) p vs q →
      Counts (.table rows) [e] p vs q
  | arguments {first more p vs q} : first.kind ≠ .table →
      Finishes (evalAll env enter frames more) p vs q → Counts first more p (first :: vs) q

end

section

variable {env : Environment σ} {enter : Enter σ} {frames : Frames}

theorem collect_iff {name : String} {first : Value} {more : List Expr} {p q : Progress σ}
    {ns : List Numeric} : Finishes (collect env enter frames name first more) p (.ok ns) q ↔
      ∃ vs, Counts env enter frames first more p vs q ∧ CountAs vs ns := by
  simp only [← numerics_eq_ok_iff]
  constructor
  · intro h
    by_cases hkind : first.kind = .table
    · cases first with
      | table rows =>
        obtain _ | ⟨e, _ | ⟨f, more⟩⟩ := more
        · rw [collect] at h
          split at h
          next hcolumn =>
            obtain ⟨vs, rfl⟩ := Table.isColumn_iff.mp hcolumn
            rw [columnValues_ofValues] at h
            obtain ⟨hns, rfl⟩ := finishes_pure_iff.mp h
            exact ⟨vs, .column, hns⟩
          next => cases h
        · obtain ⟨vs, q', hvs, h⟩ := finishes_bind_iff.mp h
          obtain ⟨hns, rfl⟩ := finishes_pure_iff.mp h
          exact ⟨vs, .rows hvs, hns⟩
        · cases h
      | _ => cases hkind
    · rw [collect_of_not_table hkind] at h
      obtain ⟨vs, q', hvs, h⟩ := finishes_bind_iff.mp h
      obtain ⟨hns, rfl⟩ := finishes_pure_iff.mp h
      exact ⟨first :: vs, .arguments hkind hvs, hns⟩
  · rintro ⟨vs, hvs, hns⟩
    cases hvs with
    | column =>
      rw [collect, if_pos (Table.isColumn_ofValues vs), columnValues_ofValues, hns]
      rfl
    | rows hvs => exact finishes_bind_iff.mpr ⟨vs, q, hvs, finishes_pure_iff.mpr ⟨hns, rfl⟩⟩
    | arguments hkind hvs =>
      rw [collect_of_not_table hkind]
      exact finishes_bind_iff.mpr ⟨_, q, hvs, finishes_pure_iff.mpr ⟨hns, rfl⟩⟩

end

def extremes : List (Builtin × Ordering) := [(.max, .gt), (.min, .lt)]

section

variable {b : Builtin} {prefer : Ordering} (hb : (b, prefer) ∈ extremes)
include hb

theorem eq_or_eq_of_mem_extremes : b = .max ∧ prefer = .gt ∨ b = .min ∧ prefer = .lt := by
  simpa [extremes] using hb

theorem aggregate_extreme (numbers : Except String (List Numeric)) :
    aggregate b numbers = valueOf (numbers.map (extremeValue prefer)) := by
  obtain ⟨rfl, rfl⟩ | ⟨rfl, rfl⟩ := eq_or_eq_of_mem_extremes hb <;> rfl

omit hb in
theorem isError_extremeValue (ns : List Numeric) : (extremeValue prefer ns).isError = false := by
  rw [extremeValue]
  cases extreme prefer ns with
  | none => rfl
  | some n => cases n <;> rfl

variable {env : Environment σ} (hmeans : env.Means b) {depth : Nat} {frames : Frames} {t : Expr}
  {more : List Expr} {offset : Nat} {p q : Progress σ} {v : Value}
include hmeans

theorem finishes_extreme_iff :
    Finishes (evalAt env depth frames (.call b.name (t :: more) offset)) p v q ∧
        v.isError = false ↔
      ∃ p₁ first p₂ vs ns, Finishes (visit env) p () p₁ ∧
        Finishes (evalAt env depth frames t) p₁ first p₂ ∧
        Counts env (env.enter depth) frames first more p₂ vs q ∧ CountAs vs ns ∧
        v = extremeValue prefer ns := by
  have hsum : b ∈ [Builtin.sum, .max, .min] := by
    obtain ⟨rfl, -⟩ | ⟨rfl, -⟩ := eq_or_eq_of_mem_extremes hb <;> decide
  rw [evalAt_eq, evalAt_eq, hmeans.eval_call _ frames (admits_aggregate hsum (by simp)),
    callBuiltin_aggregate hsum]
  simp only [finishes_bind_iff, finishes_pure_iff]
  constructor
  · rintro ⟨⟨_, p₁, hvisit, first, p₂, hfirst, numbers, q', hnumbers, rfl, rfl⟩, hv⟩
    rw [aggregate_extreme hb] at hv ⊢
    cases numbers with
    | error m => cases hv
    | ok ns =>
      obtain ⟨vs, hvs, hns⟩ := collect_iff.mp hnumbers
      exact ⟨p₁, first, p₂, vs, ns, hvisit, hfirst, hvs, hns, rfl⟩
  · rintro ⟨p₁, first, p₂, vs, ns, hvisit, hfirst, hvs, hns, rfl⟩
    refine ⟨⟨(), p₁, hvisit, first, p₂, hfirst, .ok ns, q, collect_iff.mpr ⟨vs, hvs, hns⟩, ?_, rfl⟩,
      isError_extremeValue ns⟩
    rw [aggregate_extreme hb]
    rfl

/-- An extreme is one of the numbers that are counted, of the kind that it has there, and the
comparison operators put none of them beyond it. Without numbers it is blank. -/
theorem call_extreme
    (h : Finishes (evalAt env depth frames (.call b.name (t :: more) offset)) p v q)
    (hv : v.isError = false) :
    ∃ p₁ first p₂ vs ns, Finishes (visit env) p () p₁ ∧
      Finishes (evalAt env depth frames t) p₁ first p₂ ∧
      Counts env (env.enter depth) frames first more p₂ vs q ∧ CountAs vs ns ∧
      ((∀ w ∈ vs, w.isBlank) → v = .blank) ∧
      ((∃ w ∈ vs, w.isBlank = false) → Comparable ns → ∃ n ∈ ns, v = n.toValue ∧
        ∀ m ∈ ns, ¬ Holds (comparisonOf prefer) m.toValue v) := by
  obtain ⟨p₁, first, p₂, vs, ns, hvisit, hfirst, hvs, hns, rfl⟩ :=
    (finishes_extreme_iff hb hmeans).mp ⟨h, hv⟩
  refine ⟨p₁, first, p₂, vs, ns, hvisit, hfirst, hvs, hns, fun hblank => ?_, ?_⟩
  · rw [hns.eq_nil_iff.mpr hblank]
    rfl
  · rintro ⟨w, hw, hblank⟩ hcomparable
    have hne : ns ≠ [] := fun hnil => by simp [hns.eq_nil_iff.mp hnil w hw] at hblank
    have hprefer : prefer = .gt ∨ prefer = .lt :=
      (eq_or_eq_of_mem_extremes hb).imp And.right And.right
    obtain ⟨n, hn, heq, hall⟩ := extremum_of_extreme hprefer hcomparable hne
    exact ⟨n, hn, heq, heq ▸ hall⟩

end

def readings : Environment Unit :=
  ⟨.empty, ⟨[("a", .number 0.1), ("b", decimalOf 25 2), ("c", .blank)]⟩, .empty, .empty, .never,
    .standard⟩

theorem max_of_readings :
    Finishes (evalAt readings maxCallDepth []
      (.call "Max" [.name "a" 4, .name "b" 7, .name "c" 10] 0)) ⟨0, ()⟩ (decimalOf 25 2) ⟨4, ()⟩ ∧
    ∀ w ∈ [.number 0.1, decimalOf 25 2], ¬ Holds .gt w (decimalOf 25 2) := by
  let quarter : Decimal := (Decimal.ofParts? false 25 2).getD .zero
  have hb : (Builtin.max, Ordering.gt) ∈ extremes := by decide
  have hmeans : readings.Means .max := ⟨rfl, rfl⟩
  have hvisit : Finishes (visit readings) ⟨0, ()⟩ () ⟨1, ()⟩ := rfl
  have hfirst : Finishes (evalAt readings maxCallDepth [] (.name "a" 4)) ⟨1, ()⟩ (.number 0.1)
      ⟨2, ()⟩ := rfl
  have hmore : Finishes (evalAll readings (readings.enter maxCallDepth) []
      [.name "b" 7, .name "c" 10]) ⟨2, ()⟩ [decimalOf 25 2, .blank] ⟨4, ()⟩ := rfl
  have hns : CountAs [.number 0.1, decimalOf 25 2, .blank] [.binary 0.1, .decimal quarter] :=
    numerics_eq_ok_iff.mp rfl
  have hgreatest : decimalOf 25 2 = extremeValue .gt [.binary 0.1, .decimal quarter] := by
    rw [extremeValue, extreme, List.foldl_cons, List.foldl_nil, if_pos (by decide +kernel)]
    rfl
  obtain ⟨hrun, hv⟩ : Finishes (evalAt readings maxCallDepth []
      (.call "Max" [.name "a" 4, .name "b" 7, .name "c" 10] 0)) ⟨0, ()⟩ (decimalOf 25 2) ⟨4, ()⟩ ∧
      (decimalOf 25 2).isError = false :=
    (finishes_extreme_iff hb hmeans).mpr
      ⟨_, _, _, _, _, hvisit, hfirst, .arguments (by decide) hmore, hns, hgreatest⟩
  refine ⟨hrun, ?_⟩
  obtain ⟨p₁, first, p₂, vs, ns, hvisit', hfirst', hvs, hns', -, h⟩ :=
    call_extreme hb hmeans hrun hv
  cases hvisit.symm.trans hvisit'
  cases hfirst.symm.trans hfirst'
  cases hvs with
  | arguments _ hmore' =>
    cases hmore.symm.trans hmore'
    cases (numerics_eq_ok_iff.mpr hns).symm.trans (numerics_eq_ok_iff.mpr hns')
    have hcomparable : Comparable [.binary 0.1, .decimal quarter] := by
      refine ⟨List.forall_mem_cons.mpr ⟨?_, List.forall_mem_singleton.mpr trivial⟩, ?_⟩
      · change Float.isNaN 0.1 = false
        decide +kernel
      · intro x y hx hy _
        obtain rfl : x = quarter := by simpa using hx
        obtain rfl : y = quarter := by simpa using hy
        decide +kernel
    obtain ⟨-, -, -, hall⟩ := h ⟨.number 0.1, List.mem_cons_self .., rfl⟩ hcomparable
    rw [List.forall_mem_cons, List.forall_mem_singleton] at hall ⊢
    exact hall

/-- The decimals are not in the order of their binary numbers, and the first number is between
these. -/
theorem extreme_without_order :
    ∃ n ∈ ([.number 0.000019999999999999998, decimalOf (2 * 10 ^ 20 + 1) 25, decimalOf 2 5] :
        List Value),
      Holds .gt n (aggregate .max (numerics
        [.number 0.000019999999999999998, decimalOf (2 * 10 ^ 20 + 1) 25, decimalOf 2 5])) := by
  decide +kernel

end FormulaShell.Formula
