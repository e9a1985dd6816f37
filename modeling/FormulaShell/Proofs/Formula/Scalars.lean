import FormulaShell.Formula.Aggregation
import FormulaShell.Formula.Functions
import FormulaShell.Proofs.Decimal.Binary

namespace FormulaShell

open Number (isFinite)

/-- A value that is neither a record nor a table. An error is one of these. -/
def Value.isScalar : Value → Bool
  | .record _ | .table _ => false
  | _ => true

/-- A scalar, and finite if it is a number. -/
def Value.isPlain : Value → Bool
  | .number x => isFinite x
  | v => v.isScalar

namespace Formula

def PlainResult (r : Except String Value) : Prop := (valueOf r).isPlain

variable {α : Type}

theorem plain_bind {r : Except String α} {f : α → Except String Value}
    (h : ∀ a, PlainResult (f a)) : PlainResult (r >>= f) := by
  cases r with
  | error m => rfl
  | ok a => exact h a

theorem plain_map {r : Except String α} {f : α → Value} (h : ∀ a, (f a).isPlain) :
    PlainResult (r.map f) := by
  cases r with
  | error m => rfl
  | ok a => exact h a

theorem plain_unless {p : Prop} [Decidable p] {message : String} {r : Except String Value}
    (h : PlainResult r) : PlainResult (if p then .error message else r) := by
  split
  · rfl
  · exact h

theorem plain_finite (x : Float) : PlainResult (finite x) := by
  unfold finite
  split
  next h => exact h
  next => rfl

theorem plain_fitting (d? : Option Decimal) : PlainResult (fitting d?) := by cases d? <;> rfl

theorem plain_calculateDecimal (op : ArithmeticOp) (x y : Decimal) :
    PlainResult (calculateDecimal op x y) := by
  cases op with
  | div => exact plain_unless (plain_fitting _)
  | pow => exact plain_finite _
  | _ => exact plain_fitting _

theorem plain_calculateBinary (op : ArithmeticOp) (x y : Float) :
    PlainResult (calculateBinary op x y) := by
  cases op with
  | div => exact plain_unless (plain_finite _)
  | _ => exact plain_finite _

theorem plain_calculate (op : ArithmeticOp) (l r : Value) : PlainResult (calculate op l r) := by
  refine plain_bind fun a => plain_bind fun b => ?_
  split
  · exact plain_calculateDecimal op _ _
  · exact plain_calculateBinary op _ _

theorem plain_ordered (holds : Ordering → Bool) (l r : Value) : PlainResult (ordered holds l r) :=
  plain_map fun _ => rfl

theorem plain_applyBinary (op : BinaryOp) (l r : Value) : PlainResult (applyBinary op l r) := by
  cases op with
  | concat | and | or => exact plain_bind fun _ => plain_bind fun _ => rfl
  | eq | ne => rfl
  | lt | le | gt | ge => exact plain_ordered _ l r
  | add | sub | mul | div | pow => exact plain_calculate _ l r

theorem isPlain_binary (op : BinaryOp) (l r : Value) : (binary op l r).isPlain := by
  unfold binary
  split
  · rfl
  · rfl
  · exact plain_applyBinary op l r

theorem isPlain_percent (v : Value) : (percent v).isPlain := plain_calculate .div v _

theorem plain_rounded (v places : Value) : PlainResult (rounded v places) := by
  refine plain_bind fun x => plain_bind fun n => ?_
  cases n with
  | binary x => exact plain_finite _
  | decimal d =>
    dsimp only
    split
    · rfl
    · exact plain_finite _

theorem plain_modulo (v w : Value) : PlainResult (modulo v w) :=
  plain_bind fun _ => plain_bind fun _ => plain_unless (plain_finite _)

theorem plain_toDecimal (v : Value) : PlainResult (toDecimal v) := by
  unfold toDecimal
  split
  · rfl
  · rfl
  · split <;> rfl
  · refine plain_bind fun x => ?_
    split <;> rfl

theorem plain_total (ns : List Numeric) : PlainResult (total ns) := by
  unfold total
  split
  · exact plain_fitting _
  · exact plain_finite _

theorem isPlain_count (n : ℕ) : (Value.number (Number.ofCount n)).isPlain :=
  Number.isFinite_ofCount n

theorem isPlain_toNumber (d : Decimal) : (Value.number d.toNumber).isPlain :=
  d.atMost_toNumber.isFinite

theorem isPlain_toValue {v : Value} {n : Numeric} (h : numeric v = .ok n)
    (hv : ∀ x, v ≠ .number x) : n.toValue.isPlain := by
  cases v with
  | number x => exact absurd rfl (hv x)
  | boolean b =>
    cases h
    cases b <;> decide +kernel
  | blank =>
    cases h
    decide +kernel
  | decimal d =>
    cases h
    rfl
  | text s =>
    rw [numeric] at h
    split at h
    next x _ =>
      split at h
      next hx =>
        cases h
        exact hx
      next => cases h
    next => cases h
  | _ => cases h

end Formula

end FormulaShell
