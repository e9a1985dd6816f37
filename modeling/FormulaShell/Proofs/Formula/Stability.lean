import FormulaShell.Formula.Eval
import FormulaShell.Proofs.Fields
import FormulaShell.Proofs.Formula.Scalars
import FormulaShell.Proofs.Number.Order

namespace FormulaShell.Formula

variable {α : Type}

def Entrywise (P : Value → Prop) : Prop :=
  ∀ r : Record, P (.record r) ↔ ∀ p ∈ r.entries, P p.2

namespace Entrywise

variable {P : Value → Prop} (hP : Entrywise P) {r : Record} {name : String} {v : Value}
  {vs : List Value} {t : Table}
include hP

theorem empty : P (.record .empty) := (hP .empty).mpr (by simp [Fields.empty])

theorem get? (h : P (.record r)) (hv : r.get? name = some v) : P v :=
  (hP r).mp h _ (Fields.mem_of_get? hv)

theorem insert (hr : P (.record r)) (hv : P v) : P (.record (r.insert name v)) := by
  refine (hP _).mpr fun p hp => ?_
  obtain rfl | hp := Fields.mem_put hp
  · exact hv
  · exact (hP r).mp hr p hp

theorem ofValues (h : ∀ v ∈ vs, P v) : ∀ r ∈ Table.ofValues vs, P (.record r) := by
  intro r hr
  obtain ⟨v, hv, rfl⟩ := List.mem_map.mp hr
  refine (hP _).mpr fun p hp => ?_
  obtain rfl := List.mem_singleton.mp hp
  exact h v hv

theorem union (hb : P .blank) (h : ∀ r ∈ t, P (.record r)) :
    ∀ r ∈ Table.union t, P (.record r) := by
  intro r hr
  obtain ⟨row, hrow, rfl⟩ := List.mem_map.mp hr
  refine (hP _).mpr fun p hp => ?_
  obtain ⟨n, -, rfl⟩ := List.mem_map.mp hp
  cases hv : row.get? n with
  | none => exact hb
  | some v => exact hP.get? (h row hrow) hv

end Entrywise

/-- A property that goes from values to the records and tables made of them, and back. -/
structure Structural (P : Value → Prop) : Prop where
  empty : P (.record .empty)
  get? {r : Record} {name : String} {v : Value} : P (.record r) → r.get? name = some v → P v
  insert {r : Record} {name : String} {v : Value} : P (.record r) → P v →
    P (.record (r.insert name v))
  row {t : Table} {r : Record} : P (.table t) → r ∈ t → P (.record r)
  column {vs : List Value} : (∀ v ∈ vs, P v) → P (.table (Table.ofValues vs))
  union {t : Table} : (∀ r ∈ t, P (.record r)) → P (.table (Table.union t))
  sublist {t u : Table} : P (.table t) → u.Sublist t → P (.table u)

/-- Sequences with this increment keep the property. -/
def Steps (P : Value → Prop) (step : Value) : Prop :=
  ∀ count start, P start → P (valueOf (sequence count start step))

theorem atMost_maxSequence : Number.AtMost (2 ^ (16 : ℤ)) (Float.ofNat maxSequence) :=
  Number.atMost_ofNat (by norm_num [maxSequence]) (by decide) (by decide)

theorem index_lt {x : Float} (hx : x ≤ Float.ofNat maxSequence) {i : ℕ}
    (hi : i < Number.wholePart x) : i < 2 ^ 16 := by
  have hle := Number.wholePart_le hx atMost_maxSequence (by positivity)
  have hle : Number.wholePart x ≤ 2 ^ 16 := by exact_mod_cast hle
  omega

section

variable {P : Value → Prop} (plain : ∀ {v : Value}, v.isPlain → P v)
include plain

theorem toValue_of_numeric {v : Value} (hv : P v) {n : Numeric} (h : numeric v = .ok n) :
    P n.toValue := by
  cases v with
  | number x =>
    cases h
    exact hv
  | _ => exact plain (isPlain_toValue h nofun)

theorem number_of_float {v : Value} (hv : P v) {x : Float} (h : float v = .ok x) :
    P (.number x) := by
  rw [float] at h
  cases hn : numeric v with
  | error m =>
    rw [hn] at h
    cases h
  | ok n =>
    rw [hn] at h
    cases h
    cases n with
    | binary x => exact toValue_of_numeric plain hv hn
    | decimal d => exact plain (isPlain_toNumber d)

theorem steps_of_add {step : Value}
    (column : ∀ {vs : List Value}, (∀ v ∈ vs, P v) → P (.table (Table.ofValues vs)))
    (add : ∀ {first increment i}, P (.number first) → float step = .ok increment →
      i < 2 ^ 16 → P (.number (first + increment * Float.ofNat i))) :
    Steps P step := by
  intro count start hstart
  rw [sequence]
  cases float count with
  | error m => exact plain rfl
  | ok x =>
    change P (valueOf (if _ then _ else _))
    split
    next hx =>
      rw [Bool.and_eq_true, decide_eq_true_eq, decide_eq_true_eq] at hx
      cases hfirst : float start with
      | error m => exact plain rfl
      | ok first =>
        cases hincrement : float step with
        | error m => exact plain rfl
        | ok increment =>
          refine column fun v hv => ?_
          obtain ⟨i, hi, rfl⟩ := List.mem_map.mp hv
          exact add (number_of_float plain hstart hfirst) hincrement
            (index_lt hx.2 (List.mem_range.mp hi))
    next => exact plain rfl

end

/-- A property of values that operations keep, but for sequences with an increment of their own. -/
structure Stable (P : Value → Prop) : Prop extends Structural P where
  plain {v : Value} : v.isPlain → P v
  neg {x : Float} : P (.number x) → P (.number (-x))
  abs {x : Float} : P (.number x) → P (.number x.abs)
  sqrt {x : Float} : P (.number x) → ¬ x < 0.0 → P (.number x.sqrt)
  steps : Steps P (.number 1.0)

theorem mem_of_extreme {prefer : Ordering} {ns : List Numeric} {n : Numeric}
    (h : extreme prefer ns = some n) : n ∈ ns := by
  have better {best : Numeric} {ns : List Numeric} :
      ns.foldl (fun best m => if numericOrder m best = prefer then m else best) best ∈
        best :: ns := by
    induction ns generalizing best with
    | nil => exact List.mem_cons_self ..
    | cons m ns ih =>
      rw [List.foldl_cons]
      split
      · exact List.mem_cons_of_mem best ih
      · obtain h | h := List.mem_cons.mp (@ih best)
        · rw [h]
          exact List.mem_cons_self ..
        · exact List.mem_cons_of_mem best (List.mem_cons_of_mem m h)
  cases ns with
  | nil => cases h
  | cons m ns =>
    cases h
    exact better

namespace Stable

variable {P : Value → Prop} (hP : Stable P)
include hP

theorem error (message : String) : P (.error message) := hP.plain rfl

theorem valueOf {r : Except String Value} (h : ∀ v, r = .ok v → P v) : P (Formula.valueOf r) := by
  cases r with
  | error m => exact hP.error m
  | ok v => exact h v rfl

theorem bind {r : Except String α} {f : α → Except String Value}
    (h : ∀ a, r = .ok a → P (Formula.valueOf (f a))) : P (Formula.valueOf (r >>= f)) := by
  cases r with
  | error m => exact hP.error m
  | ok a => exact h a rfl

theorem map {r : Except String α} {f : α → Value} (h : ∀ a, r = .ok a → P (f a)) :
    P (Formula.valueOf (r.map f)) := by
  cases r with
  | error m => exact hP.error m
  | ok a => exact h a rfl

section

variable {v w : Value} (hv : P v)
include hv

theorem toValue {n : Numeric} (h : numeric v = .ok n) : P n.toValue :=
  toValue_of_numeric hP.plain hv h

theorem float {x : Float} (h : Formula.float v = .ok x) : P (.number x) :=
  number_of_float hP.plain hv h

theorem unary (op : UnaryOp) : P (Formula.unary op v) := by
  cases op with
  | not => exact hP.plain (plain_map fun _ => rfl)
  | neg =>
    refine hP.bind fun n hn => ?_
    cases n with
    | binary x => exact hP.neg (hP.toValue hv hn)
    | decimal d => exact hP.plain rfl

theorem absolute : P (Formula.valueOf (Formula.absolute v)) := by
  refine hP.bind fun n hn => ?_
  cases n with
  | binary x => exact hP.abs (hP.toValue hv hn)
  | decimal d => exact hP.plain rfl

theorem squareRoot : P (Formula.valueOf (Formula.squareRoot v)) := by
  refine hP.bind fun x hx => ?_
  split
  · exact hP.error _
  · exact hP.sqrt (hP.float hv hx) ‹_›

theorem toNumber : P (Formula.valueOf (Formula.toNumber v)) := by
  unfold Formula.toNumber
  split
  · exact hP.plain rfl
  · exact hP.map fun x hx => hP.float hv hx

theorem rows {function : String} {t : Table} (h : Formula.rows function v = .ok t) :
    P (.table t) := by
  unfold Formula.rows at h
  split at h <;> cases h
  · exact hv
  · have hempty : P (.table (Table.ofValues [])) := hP.column (by simp)
    exact hempty

theorem coerce {k : Kind} (h : Formula.coerce v k = .ok w) : P w := by
  unfold Formula.coerce at h
  split at h
  · cases h
    exact hv
  · split at h
    · split at h <;> cases h
      exact hP.plain rfl
    · cases h
      exact hP.plain (isPlain_toNumber _)
    · cases h

end

theorem getD {r : Record} {name : String} {other : Value} (hr : P (.record r)) (ho : P other) :
    P ((r.get? name).getD other) := by
  cases hg : r.get? name with
  | none => exact ho
  | some w => exact hP.get? hr hg

theorem fieldOf {v : Value} (hv : P v) (name : String) : P (Formula.fieldOf v name) := by
  cases v with
  | record r => exact hP.getD hv (hP.error _)
  | table t =>
    change P (if _ then _ else _)
    split
    · exact hP.error _
    · refine hP.column fun w hw => ?_
      obtain ⟨r, hr, rfl⟩ := List.mem_map.mp hw
      exact hP.getD (hP.row hv hr) (hP.plain rfl)
  | _ => exact hP.plain rfl

section

variable {vs : List Value} (hvs : ∀ v ∈ vs, P v)
include hvs

theorem gather {t : Table} (h : Formula.gather vs = .ok t) : ∀ r ∈ t, P (.record r) := by
  induction vs generalizing t with
  | nil =>
    cases h
    simp
  | cons v vs ih =>
    obtain ⟨hv, hrest⟩ := List.forall_mem_cons.mp hvs
    have hmore (more : Table) (hmore : ∀ r ∈ more, P (.record r))
        (h : (Formula.gather vs).map (more ++ ·) = .ok t) : ∀ r ∈ t, P (.record r) := by
      cases hg : Formula.gather vs with
      | error m =>
        rw [hg] at h
        cases h
      | ok u =>
        rw [hg] at h
        cases h
        exact List.forall_mem_append.mpr ⟨hmore, ih hrest hg⟩
    cases v with
    | record r => exact hmore [r] (by simpa using hv) h
    | table more => exact hmore more (fun r hr => hP.row hv hr) h
    | blank => exact ih hrest h
    | _ => cases h

theorem makeTable : P (Formula.valueOf (Formula.makeTable vs)) :=
  hP.map fun _ ht => hP.union (hP.gather hvs ht)

theorem tableOfResults : P (.table (Formula.tableOfResults vs)) := by
  unfold Formula.tableOfResults
  dsimp only
  split
  · refine hP.union fun r hr => ?_
    obtain ⟨v, hv, hr⟩ := List.mem_filterMap.mp hr
    split at hr <;> cases hr
    exact hvs _ hv
  · exact hP.column hvs

theorem numerics {ns : List Numeric} (h : Formula.numerics vs = .ok ns) :
    ∀ n ∈ ns, P n.toValue := by
  induction vs generalizing ns with
  | nil =>
    cases h
    simp
  | cons v vs ih =>
    obtain ⟨hv, hrest⟩ := List.forall_mem_cons.mp hvs
    rw [Formula.numerics] at h
    split at h
    · exact ih hrest h
    · cases hn : numeric v with
      | error m =>
        rw [hn] at h
        cases h
      | ok n =>
        cases hm : Formula.numerics vs with
        | error m =>
          rw [hn, hm] at h
          cases h
        | ok more =>
          rw [hn, hm] at h
          cases h
          exact List.forall_mem_cons.mpr ⟨hP.toValue hv hn, ih hrest hm⟩

end

theorem extremeValue (prefer : Ordering) {ns : List Numeric} (h : ∀ n ∈ ns, P n.toValue) :
    P (Formula.extremeValue prefer ns) := by
  unfold Formula.extremeValue
  split
  next n hn => exact h n (mem_of_extreme hn)
  next => exact hP.plain rfl

theorem rowAt {v : Value} (hv : P v) (i : Value) : P (Formula.valueOf (Formula.rowAt v i)) := by
  refine hP.bind fun t ht => hP.bind fun x _ => ?_
  dsimp only
  split
  · split
    next row hrow => exact hP.row (hP.rows hv ht) (List.mem_of_getElem? hrow)
    next => exact hP.error _
  · exact hP.error _

theorem rowOrBlank {r? : Option Record} (h : ∀ r, r? = some r → P (.record r)) :
    P (Formula.rowOrBlank r?) := by
  cases r? with
  | none => exact hP.plain rfl
  | some r => exact h r rfl

/-- Of the functions whose arguments are evaluated first, those over tables give parts of what they
are given, or a table of their own; all others give a scalar. -/
theorem result? {b : Builtin} {vs : List Value} (hvs : ∀ v ∈ vs, P v)
    (hs : b = .sequence → ∀ n start step, vs = [n, start, step] → Steps P step)
    {r : Except String Value} (h : b.result? vs = some r) : P (Formula.valueOf r) := by
  have plain {r : Except String Value} (hr : PlainResult r) : P (Formula.valueOf r) := hP.plain hr
  unfold Builtin.result? at h
  split at h <;> cases h
  case h_17 => exact hP.makeTable hvs
  case h_18 n => exact hP.steps n _ (hP.plain (by decide +kernel))
  case h_19 n start => exact hP.steps n start (hvs start (by simp))
  case h_20 n start step => exact hs rfl n start step rfl n start (hvs start (by simp))
  case h_22 v =>
    refine hP.map fun t ht => hP.rowOrBlank fun r hr => ?_
    exact hP.row (hP.rows (hvs v (by simp)) ht) (List.mem_of_head? hr)
  case h_23 v =>
    refine hP.map fun t ht => hP.rowOrBlank fun r hr => ?_
    exact hP.row (hP.rows (hvs v (by simp)) ht) (List.mem_of_getLast? hr)
  case h_24 v i => exact hP.rowAt (hvs v (by simp)) i
  case h_6 v => exact hP.absolute (hvs v (by simp))
  case h_7 v w => exact plain (plain_rounded v w)
  case h_8 v => exact hP.squareRoot (hvs v (by simp))
  case h_9 v w => exact plain (plain_modulo v w)
  case h_15 v => exact hP.toNumber (hvs v (by simp))
  case h_16 v => exact plain (plain_toDecimal v)
  case h_10 | h_21 => exact plain (plain_map fun _ => isPlain_count _)
  case h_4 | h_13 => exact plain (plain_bind fun _ => rfl)
  case h_5 | h_11 | h_12 | h_14 => exact plain (plain_map fun _ => rfl)
  all_goals exact hP.plain rfl

end Stable

end FormulaShell.Formula
