import FormulaShell.Proofs.Formula.Crash
import FormulaShell.Proofs.Formula.Stability

namespace FormulaShell.Formula

open FormulaShell.Number

variable {σ α β : Type}

/-- Counts from there on are not all binary numbers, and one may be rounded up to a row that there
is not. No memory holds a table of so many rows, each of which takes more than two words. -/
def Crash.Oversized : Crash → Prop
  | .row _ n => 2 ^ 53 ≤ n
  | _ => False

/-- The result is reached, unless there is a table that no memory holds. -/
def Reached (a : Except Crash α) (b : α) : Prop := a = .ok b ∨ ∃ c, c.Oversized ∧ a = .error c

namespace Crashing

theorem guarded_inRange (d : Option Decimal) : guarded (inRange d) = d := by
  cases d <;> rfl

theorem guarded_div {x y : Decimal} (h : ¬ y.isZero) : guarded (decimal .div x y) = x.div? y := by
  rw [decimal, if_neg h, guarded_inRange]

theorem calculate_eq (op : ArithmeticOp) (l r : Value) :
    calculate op l r = Formula.calculate op l r := by
  rw [calculate, Formula.calculate]
  refine bind_congr fun a => bind_congr fun b => ?_
  obtain x | x := a
  · rfl
  obtain y | y := b
  · rfl
  cases op with
  | pow => rfl
  | div =>
    simp only [calculateDecimal]
    split
    next => rfl
    next h => rw [guarded_div h]
  | _ => exact congrArg fitting (guarded_inRange _)

theorem applyBinary_eq (op : BinaryOp) (l r : Value) :
    applyBinary op l r = Formula.applyBinary op l r := by
  cases op with
  | add | sub | mul | div | pow => rw [applyBinary, Formula.applyBinary, calculate_eq]
  | _ => rfl

theorem binary_eq (op : BinaryOp) (l r : Value) : binary op l r = Formula.binary op l r := by
  cases l with
  | error m => rfl
  | _ =>
    cases r with
    | error m => rfl
    | _ => exact congrArg valueOf (applyBinary_eq ..)

theorem addDecimals_eq (acc : Decimal) (ns : List Numeric) :
    addDecimals acc ns = Formula.addDecimals acc ns := by
  induction ns generalizing acc with
  | nil => rfl
  | cons n ns ih =>
    cases n with
    | binary x => exact ih acc
    | decimal d =>
      rw [addDecimals, Formula.addDecimals, decimal, guarded_inRange]
      cases acc.add? d with
      | none => rfl
      | some next => exact ih next

theorem total_eq (ns : List Numeric) : total ns = Formula.total ns := by
  rw [total, Formula.total, addDecimals_eq]

theorem lift_bind (a : Except String α) (f : α → Except String β) :
    (liftM (a >>= f) : Attempt β) = liftM a >>= fun x => liftM (f x) := by
  cases a <;> rfl

theorem lift_ok_bind (a : α) (f : α → Attempt β) :
    liftM (Except.ok a : Except Crash α) >>= f = f a := rfl

theorem lift_map (a : Except String α) (f : α → β) :
    (liftM a >>= fun x => pure (f x) : Attempt β) = liftM (a.map f) := by
  cases a <;> rfl

theorem isValueRow_eq (row : Record) :
    isValueRow row = .ok (row.names == [Table.valueColumn]) := by
  obtain ⟨_ | ⟨p, _ | ⟨q, entries⟩⟩⟩ := row
  · rfl
  · simp [isValueRow, position, Fields.names]
  · simp [isValueRow, Fields.names]
    rfl

theorem isColumn_eq (t : Table) : isColumn t = .ok (Table.isColumn t) := by
  induction t with
  | nil => rfl
  | cons row t ih =>
    have hcons : Table.isColumn (row :: t) =
      (row.names == [Table.valueColumn] && Table.isColumn t) := List.all_cons
    rw [isColumn] at ih ⊢
    rw [List.allM, isValueRow_eq, ih, hcons]
    cases row.names == [Table.valueColumn] <;> rfl

/-- A mantissa loses a digit before it can gain a unit. -/
theorem roundHalfUp_lt {d : Decimal} {k : Nat} (hk : k ≠ 0) :
    Decimal.roundHalfUp d.mantissa (Number.tenTo k) < Decimal.capacity := by
  have hten : 2 ≤ Number.tenTo k := le_trans (by decide) (Nat.le_self_pow hk 10)
  have hdiv : d.mantissa / Number.tenTo k ≤ d.mantissa / 2 := Nat.div_le_div_left hten (by decide)
  have hlt := d.mantissa_lt
  have hbig : 2 < Decimal.capacity := by decide
  rw [Decimal.roundHalfUp]
  split <;> omega

theorem round_eq (d : Decimal) (n : Nat) : round d n = .ok (d.round n) := by
  rw [round]
  split
  next => rfl
  next h =>
    rw [not_or, Nat.not_le] at h
    have hroom := roundHalfUp_lt (d := d) (k := d.scale - n) (by omega)
    have hscale : n ≤ 28 := by
      have := d.scale_le
      omega
    rw [Decimal.round, if_neg (by omega), if_neg h.2, Decimal.ofParts?, Decimal.ofSigned?,
      dif_pos ⟨hroom, hscale⟩]
    rfl

theorem round_placeCount (d : Decimal) {x : Float} (hx : Number.isFinite x = true) :
    d.round (placeCount x) = d.round (Number.wholePart x) := by
  rw [placeCount]
  split
  next => rfl
  next h =>
    have hlimit : Canonical (2 ^ 52) (-20) :=
      ⟨by decide, by decide, by decide, by decide, .inl le_rfl⟩
    have heq : (4294967296.0 : Float) = ofParts false (2 ^ 52) (-20) (by decide) :=
      eq_of_toNat_toBits (by decide +kernel)
    have hnumber : Float.isNaN 4294967296.0 = false := by decide +kernel
    have hle : 4294967296.0 ≤ x := by
      have hx := isNaN_of_isFinite hx
      rw [lt_iff_rank hx hnumber] at h
      exact (le_iff_rank hnumber hx).mpr (le_of_not_gt h)
    have hmany : 28 ≤ Number.wholePart x := le_wholePart hlimit (by norm_num) (heq ▸ hle) hx
    have hscale := d.scale_le
    rw [Decimal.round, Decimal.round, if_pos (by omega), if_pos (by omega)]

theorem rounded_eq (v digits : Value) : rounded v digits = liftM (Formula.rounded v digits) := by
  rw [rounded, Formula.rounded, lift_bind]
  refine bind_congr fun x => ?_
  rw [lift_bind]
  refine bind_congr fun n => ?_
  cases n with
  | binary x => rfl
  | decimal d =>
    dsimp only
    split
    next h =>
      rw [places, if_pos h, lift_ok_bind, round_eq]
      rfl
    next => rfl

theorem count_eq {x y : Float} {b : ℚ} (hx : 0.0 ≤ x) (hxy : x ≤ y) (hy : Number.AtMost b y)
    (hb : 0 ≤ b) (hlt : b < 2 ^ 64) : count? x = some (Number.wholePart x) :=
  if_pos ⟨hx, Number.lt_of_le_atMost hxy hy hb hlt⟩

theorem sequence_eq (n : Value) (start step : Option Value) : sequence n start step =
    liftM (Formula.sequence n (start.getD (.number 1.0)) (step.getD (.number 1.0))) := by
  rw [sequence, Formula.sequence, lift_bind]
  refine bind_congr fun x => ?_
  dsimp only
  split
  next h =>
    rw [Bool.and_eq_true, decide_eq_true_iff, decide_eq_true_iff] at h
    have hcount := count_eq h.1 h.2 atMost_maxSequence (by positivity) (by norm_num)
    rw [lift_bind]
    refine bind_congr fun first => ?_
    rw [lift_bind]
    refine bind_congr fun increment => ?_
    rw [count, hcount]
    rfl
  next => rfl

theorem rowNumbered_cases (t : Table) (x : Float) :
    (∃ row, t[Number.wholePart x - 1]? = some row ∧ rowNumbered t x = .ok row) ∨
      rowNumbered t x = .error (.row x t.length) := by
  rw [rowNumbered]
  split
  next i hi =>
    have hwhole : Number.wholePart x = i + 1 := by
      rw [count?] at hi
      split at hi
      · exact Option.some.inj hi
      · cases hi
    rw [hwhole, Nat.add_sub_cancel]
    cases t[i]? with
    | some row => exact .inl ⟨row, rfl, rfl⟩
    | none => exact .inr rfl
  next => exact .inr rfl

theorem exists_rowNumbered {t : Table} {x : Float} (h : 1.0 ≤ x) (hx : x ≤ Number.ofCount t.length)
    (hn : t.length < 2 ^ 53) : ∃ row, rowNumbered t x = .ok row := by
  have hmost := Number.atMost_ofCount hn
  have hfinite : Number.isFinite x = true :=
    Number.isFinite_of_between h hx (by decide +kernel) hmost.isFinite
  have hpos := Number.nonneg_of_one_le (Number.isNaN_of_le h).2 h
  have hcount := count_eq hpos hx hmost (Nat.cast_nonneg _)
    (by exact_mod_cast hn.trans (by decide))
  have hle : Number.wholePart x ≤ t.length := by
    exact_mod_cast Number.wholePart_le hx hmost (Nat.cast_nonneg _)
  have hone := Number.one_le_wholePart h hfinite
  obtain ⟨i, hi⟩ : ∃ i, Number.wholePart x = i + 1 := ⟨Number.wholePart x - 1, by omega⟩
  have hlt : i < t.length := by omega
  refine ⟨t[i], ?_⟩
  rw [rowNumbered, hcount, hi]
  simp only [List.getElem?_eq_getElem hlt]

theorem reached_bind {a : Except String α} {f : α → Attempt β} {g : α → Except String β}
    (h : ∀ x, Reached (f x).run (g x)) : Reached (liftM a >>= f).run (a >>= g) := by
  cases a with
  | error m => exact .inl rfl
  | ok x => exact h x

theorem reached_rowAt (v i : Value) : Reached (rowAt v i).run (Formula.rowAt v i) := by
  rw [rowAt, Formula.rowAt]
  refine reached_bind fun t => reached_bind fun x => ?_
  dsimp only
  split
  next h =>
    rw [Bool.and_eq_true, decide_eq_true_iff, decide_eq_true_iff] at h
    obtain ⟨row, hrow, hnumbered⟩ | hcrash := rowNumbered_cases t (Number.trunc x)
    · rw [hrow, hnumbered]
      exact .inl rfl
    · refine .inr ⟨.row (Number.trunc x) t.length, Nat.le_of_not_lt fun hn => ?_, ?_⟩
      · obtain ⟨row, hrow⟩ := exists_rowNumbered h.1 h.2 hn
        cases hcrash.symm.trans hrow
      · rw [hcrash]
        rfl
  next => exact .inl rfl

/-- With as many arguments as its arity allows, a function on values finds every argument that it
reads. -/
theorem reached_result {b : Builtin} {f : List Value → Attempt Value}
    (hf : implementation (σ := σ) b = .strict f) {vs : List Value} (hn : b.arity.admits vs.length) :
    ∃ r, b.result? vs = some r ∧ Reached (f vs).run r := by
  have one (hb : b.arity = .exactly 1) : ∃ v, vs = [v] :=
    List.length_eq_one_iff.mp (admits_exactly.mp (hb ▸ hn))
  have two (hb : b.arity = .exactly 2) : ∃ v w, vs = [v, w] :=
    List.length_eq_two.mp (admits_exactly.mp (hb ▸ hn))
  cases b with
  | filter | forAll | ifThen | max | min | sum => cases hf
  | blank =>
    cases hf
    obtain rfl := List.length_eq_zero_iff.mp (admits_exactly.mp hn)
    exact ⟨_, rfl, .inl rfl⟩
  | concatenate | table =>
    cases hf
    exact ⟨_, rfl, .inl rfl⟩
  | sequence =>
    cases hf
    obtain _ | ⟨n, _ | ⟨start, _ | ⟨step, _ | ⟨_, vs⟩⟩⟩⟩ := vs
    · cases hn
    · exact ⟨_, rfl, .inl (sequence_eq n none none)⟩
    · exact ⟨_, rfl, .inl (sequence_eq n (some start) none)⟩
    · exact ⟨_, rfl, .inl (sequence_eq n (some start) (some step))⟩
    · simp [Builtin.arity, Arity.admits] at hn
      omega
  | index =>
    cases hf
    obtain ⟨v, w, rfl⟩ := two rfl
    exact ⟨_, rfl, reached_rowAt v w⟩
  | mod =>
    cases hf
    obtain ⟨v, w, rfl⟩ := two rfl
    exact ⟨_, rfl, .inl rfl⟩
  | round =>
    cases hf
    obtain ⟨v, w, rfl⟩ := two rfl
    exact ⟨_, rfl, .inl (rounded_eq v w)⟩
  | abs | decimal | sqrt | value | isBlank | isError =>
    cases hf
    obtain ⟨v, rfl⟩ := one rfl
    exact ⟨_, rfl, .inl rfl⟩
  | error =>
    cases hf
    obtain ⟨v, rfl⟩ := one rfl
    refine ⟨_, rfl, .inl ?_⟩
    change (liftM (text v) >>= throw : Attempt Value).run = _
    cases text v <;> rfl
  | _ =>
    cases hf
    obtain ⟨v, rfl⟩ := one rfl
    exact ⟨_, rfl, .inl (lift_map _ _)⟩

/-- It is the arity that keeps a function from a position outside its arguments: of too few it reads
one that is not there. Only a text that is joined has no positions in it. -/
theorem crash_of_missing {b : Builtin} {f : List Value → Attempt Value}
    (hf : implementation (σ := σ) b = .strict f) (hb : b ≠ .concatenate) {vs : List Value}
    (hvs : vs.length < b.arity.least) : (f vs).run = .error (.position vs.length vs.length) := by
  cases b with
  | filter | forAll | ifThen | max | min | sum => cases hf
  | concatenate => exact absurd rfl hb
  | blank | table => cases hvs
  | index | mod | round =>
    cases hf
    obtain _ | ⟨v, _ | ⟨w, vs⟩⟩ := vs
    · rfl
    · rfl
    · simp [Builtin.arity, Arity.exactly] at hvs
  | _ =>
    cases hf
    obtain rfl := List.length_eq_zero_iff.mp (Nat.lt_one_iff.mp hvs)
    rfl

end Crashing

end FormulaShell.Formula
