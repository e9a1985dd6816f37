import FormulaShell.Proofs.Decimal.Binary
import FormulaShell.Proofs.Number.Order
import FormulaShell.Proofs.Value.Equality

namespace FormulaShell

open FormulaShell.Number

/-- A number that is one, a decimal or a blank. -/
def Value.IsNumeric : Value → Prop
  | .number x => x.isNaN = false
  | .decimal _ | .blank => True
  | _ => False

namespace Formula

def Holds (op : BinaryOp) (a b : Value) : Prop := binary op a b = .boolean true

theorem holds_iff (op : BinaryOp) (a b : Value) :
    (binary op a b matches .boolean true) = true ↔ Holds op a b := by
  unfold Holds
  split
  next h => exact iff_of_true rfl h
  next h => exact iff_of_false Bool.false_ne_true h

instance (op : BinaryOp) (a b : Value) : Decidable (Holds op a b) :=
  decidable_of_iff _ (holds_iff op a b)

/-- The value counts as zero. -/
def IsZero (v : Value) : Prop := ∃ x, comparable? v = some x ∧ (x == 0.0) = true

/-- If both values are decimals, they compare as their binary numbers do. -/
def Keeps (a b : Value) : Prop :=
  ∀ x y, a = .decimal x → b = .decimal y →
    floatOrder? x.toNumber y.toNumber = some (x.compare y)

def binaryRank (v : Value) : ℤ ×ₗ ℤ ×ₗ ℤ := rank ((comparable? v).getD 0.0)

section

variable {a b : Value} {o : Ordering}

theorem exists_comparable (ha : a.IsNumeric) :
    ∃ x : Float, comparable? a = some x ∧ x.isNaN = false := by
  cases a with
  | number x => exact ⟨x, rfl, ha⟩
  | decimal d => exact ⟨d.toNumber, rfl, isNaN_of_isFinite d.atMost_toNumber.isFinite⟩
  | blank => exact ⟨0.0, rfl, by decide +kernel⟩
  | _ => cases ha

/-- How two numeric values compare. -/
structure Compare (a b : Value) (o : Ordering) : Prop where
  order : order a b = .ok (some o)
  equal : equal a b = true ↔ o = .eq ∧ a.isBlank = b.isBlank
  binary : Keeps a b → o = cmp (binaryRank a) (binaryRank b)
  zero : o = .eq → a.isBlank ≠ b.isBlank → IsZero a ∧ IsZero b

theorem compare_of_comparable {x y : Float} (ha : comparable? a = some x) (hx : x.isNaN = false)
    (hb : comparable? b = some y) (hy : y.isNaN = false)
    (horder : Formula.order a b = .ok (floatOrder? x y))
    (hequal : Formula.equal a b = true ↔ (x == y) = true ∧ a.isBlank = b.isBlank) :
    Compare a b (cmp (rank x) (rank y)) := by
  have hrank : binaryRank a = rank x ∧ binaryRank b = rank y := by
    simp [binaryRank, ha, hb]
  refine ⟨?_, ?_, fun _ => by rw [hrank.1, hrank.2], fun heq hblank => ?_⟩
  · rw [horder, floatOrder?_eq hx hy]
  · rw [hequal, beq_iff_rank hx hy, cmp_eq_eq_iff]
  · have hrank := (cmp_eq_eq_iff _ _).mp heq
    have hzero : (0.0 : Float).isNaN = false := by decide +kernel
    have blank {c d : Value} {x y : Float} (hc : comparable? c = some x)
        (hd : comparable? d = some y) (hy : y.isNaN = false) (hrank : rank x = rank y)
        (h : c.isBlank = true) : IsZero c ∧ IsZero d := by
      cases c with
      | blank =>
        cases hc
        exact ⟨⟨0.0, rfl, by decide +kernel⟩, y, hd, (beq_iff_rank hy hzero).mpr hrank.symm⟩
      | _ => cases h
    cases hca : a.isBlank with
    | true => exact blank ha hb hy hrank hca
    | false =>
      have hcb : b.isBlank = true := by
        rw [hca] at hblank
        exact Bool.eq_true_of_not_eq_false hblank.symm
      exact (blank hb ha hx hrank.symm hcb).symm

theorem compare_decimal (x y : Decimal) :
    Compare (.decimal x) (.decimal y) (x.compare y) where
  order := rfl
  equal := by
    change (x.units == y.units) = true ↔ Ord.compare x.units y.units = .eq ∧ _
    rw [beq_iff_eq, compare_eq_iff_eq]
    exact (and_iff_left rfl).symm
  binary hk := by
    have hx := isNaN_of_isFinite x.atMost_toNumber.isFinite
    have hy := isNaN_of_isFinite y.atMost_toNumber.isFinite
    have h := hk x y rfl rfl
    rw [floatOrder?_eq hx hy, Option.some_inj] at h
    exact h.symm
  zero _ h := absurd rfl h

theorem exists_compare (ha : a.IsNumeric) (hb : b.IsNumeric) : ∃ o, Compare a b o := by
  obtain ⟨x, hx, hxn⟩ := exists_comparable ha
  obtain ⟨y, hy, hyn⟩ := exists_comparable hb
  have binary (horder : Formula.order a b = .ok (floatOrder? x y))
      (hequal : Formula.equal a b = true ↔ (x == y) = true ∧ a.isBlank = b.isBlank) :=
    Exists.intro _ (compare_of_comparable hx hxn hy hyn horder hequal)
  have differ (horder : Formula.order a b = .ok (floatOrder? x y))
      (hequal : Formula.equal a b = false) (h : a.isBlank ≠ b.isBlank) :=
    binary horder (iff_of_false (by rw [hequal]; exact Bool.false_ne_true) fun h' => h h'.2)
  cases a with
  | number _ =>
    cases b with
    | number _ | decimal _ =>
      cases hx
      cases hy
      exact binary rfl (and_iff_left rfl).symm
    | blank =>
      cases hx
      cases hy
      exact differ rfl (Value.beq_blank_right _) nofun
    | _ => cases hb
  | decimal c =>
    cases b with
    | decimal d => exact ⟨_, compare_decimal c d⟩
    | number _ =>
      cases hx
      cases hy
      exact binary rfl (and_iff_left rfl).symm
    | blank =>
      cases hx
      cases hy
      exact differ rfl (Value.beq_blank_right _) nofun
    | _ => cases hb
  | blank =>
    cases b with
    | number _ | decimal _ =>
      cases hx
      cases hy
      exact differ rfl (Value.blank_beq _) nofun
    | blank =>
      cases hx
      cases hy
      exact binary rfl (iff_of_true (Value.blank_beq .blank) ⟨by decide +kernel, rfl⟩)
    | _ => cases hb
  | _ => cases ha

theorem binary_eq (op : BinaryOp) (ha : a.IsNumeric) (hb : b.IsNumeric) :
    binary op a b = valueOf (applyBinary op a b) := by
  cases a with
  | error m => cases ha
  | _ =>
    cases b with
    | error m => cases hb
    | _ => rfl

theorem Compare.ordered (h : Compare a b o) (holds : Ordering → Bool) :
    valueOf (Formula.ordered holds a b) = .boolean (holds o) := by
  rw [Formula.ordered, h.order]
  rfl

theorem Compare.holds (h : Compare a b o) (ha : a.IsNumeric) (hb : b.IsNumeric) :
    (Holds .lt a b ↔ o = .lt) ∧ (Holds .gt a b ↔ o = .gt) ∧ (Holds .le a b ↔ o ≠ .gt) ∧
      (Holds .ge a b ↔ o ≠ .lt) ∧ (Holds .eq a b ↔ o = .eq ∧ a.isBlank = b.isBlank) := by
  simp only [Holds, binary_eq _ ha hb, applyBinary, h.ordered, Value.boolean.injEq]
  refine ⟨?_, ?_, ?_, ?_, ?_⟩
  case refine_5 => exact ⟨fun heq => h.equal.mp (Value.boolean.inj heq),
    fun heq => congrArg Value.boolean (h.equal.mpr heq)⟩
  all_goals cases o <;> decide

end

variable {a b c : Value}

def comparisonOf : Ordering → BinaryOp
  | .lt => .lt
  | .eq => .eq
  | .gt => .gt

theorem existsUnique_holds {o : Ordering} (hlt : Holds .lt a b ↔ o = .lt)
    (heq : Holds .eq a b ↔ o = .eq) (hgt : Holds .gt a b ↔ o = .gt) :
    ∃! op, op ∈ [BinaryOp.lt, .eq, .gt] ∧ Holds op a b := by
  refine ⟨comparisonOf o, ⟨?_, ?_⟩, ?_⟩
  · cases o <;> decide
  · cases o with
    | lt => exact hlt.mpr rfl
    | eq => exact heq.mpr rfl
    | gt => exact hgt.mpr rfl
  · rintro op ⟨hop, h⟩
    simp only [List.mem_cons, List.not_mem_nil, or_false] at hop
    obtain rfl | rfl | rfl := hop
    · rw [hlt.mp h, comparisonOf]
    · rw [heq.mp h, comparisonOf]
    · rw [hgt.mp h, comparisonOf]

theorem holds_trichotomy (ha : a.IsNumeric) (hb : b.IsNumeric)
    (h : a.isBlank = b.isBlank ∨ ¬ (IsZero a ∧ IsZero b)) :
    (∃! op, op ∈ [BinaryOp.lt, .eq, .gt] ∧ Holds op a b) ∧
      (Holds .le a b ↔ Holds .lt a b ∨ Holds .eq a b) ∧
      (Holds .ge a b ↔ Holds .gt a b ∨ Holds .eq a b) := by
  obtain ⟨o, ho⟩ := exists_compare ha hb
  obtain ⟨hlt, hgt, hle, hge, heq⟩ := ho.holds ha hb
  have hblank : o = .eq → a.isBlank = b.isBlank := fun hoe =>
    h.elim id fun hz => not_not.mp fun hne => hz (ho.zero hoe hne)
  have heq : Holds .eq a b ↔ o = .eq := heq.trans ⟨And.left, fun hoe => ⟨hoe, hblank hoe⟩⟩
  refine ⟨existsUnique_holds hlt heq hgt, ?_, ?_⟩
  · rw [hle, hlt, heq]
    cases o <;> decide
  · rw [hge, hgt, heq]
    cases o <;> decide

theorem holds_trans_of_key {α : Type} [LinearOrder α] (key : Value → α) (ha : a.IsNumeric)
    (hb : b.IsNumeric) (hc : c.IsNumeric) (hab : Compare a b (cmp (key a) (key b)))
    (hbc : Compare b c (cmp (key b) (key c))) (hac : Compare a c (cmp (key a) (key c))) :
    (Holds .eq a b → Holds .eq b c → Holds .eq a c) ∧
      (Holds .le a b → Holds .le b c → Holds .le a c) := by
  obtain ⟨-, -, hle₁, -, heq₁⟩ := hab.holds ha hb
  obtain ⟨-, -, hle₂, -, heq₂⟩ := hbc.holds hb hc
  obtain ⟨-, -, hle₃, -, heq₃⟩ := hac.holds ha hc
  constructor
  · rw [heq₁, heq₂, heq₃, cmp_eq_eq_iff, cmp_eq_eq_iff, cmp_eq_eq_iff]
    rintro ⟨h₁, b₁⟩ ⟨h₂, b₂⟩
    exact ⟨h₁.trans h₂, b₁.trans b₂⟩
  · rw [hle₁, hle₂, hle₃, ne_eq, ne_eq, ne_eq, cmp_eq_gt_iff, cmp_eq_gt_iff, cmp_eq_gt_iff, not_lt,
      not_lt, not_lt]
    exact le_trans

def units : Value → ℤ
  | .decimal d => d.units
  | _ => 0

/-- Three decimals compare exactly. Three other values compare as binary numbers, if that makes no
difference to decimals among them. -/
theorem holds_trans (ha : a.IsNumeric) (hb : b.IsNumeric) (hc : c.IsNumeric)
    (h : (∀ v ∈ [a, b, c], v.kind = .decimal) ∨ Keeps a b ∧ Keeps b c ∧ Keeps a c) :
    (Holds .eq a b → Holds .eq b c → Holds .eq a c) ∧
      (Holds .le a b → Holds .le b c → Holds .le a c) := by
  obtain hdecimal | ⟨hab, hbc, hac⟩ := h
  · have exact {a b : Value} (ha : a.kind = .decimal) (hb : b.kind = .decimal) :
        Compare a b (cmp (units a) (units b)) := by
      cases a with
      | decimal x =>
        cases b with
        | decimal y =>
          rw [cmp_eq_compare]
          exact compare_decimal x y
        | _ => cases hb
      | _ => cases ha
    have hka := hdecimal a (by simp)
    have hkb := hdecimal b (by simp)
    have hkc := hdecimal c (by simp)
    exact holds_trans_of_key units ha hb hc (exact hka hkb) (exact hkb hkc) (exact hka hkc)
  · have binary {a b : Value} (ha : a.IsNumeric) (hb : b.IsNumeric) (h : Keeps a b) :
        Compare a b (cmp (binaryRank a) (binaryRank b)) := by
      obtain ⟨o, ho⟩ := exists_compare ha hb
      exact ho.binary h ▸ ho
    exact holds_trans_of_key binaryRank ha hb hc (binary ha hb hab) (binary hb hc hbc)
      (binary ha hc hac)

/-- Numbers, decimals and blanks are in one order. Left out are, in the first part, a blank and a
zero, and in the second, two decimals beside a third value that is none, if the decimals compare
otherwise than their binary numbers. -/
theorem comparison_of_numeric (ha : a.IsNumeric) (hb : b.IsNumeric) (hc : c.IsNumeric) :
    (a.isBlank = b.isBlank ∨ ¬ (IsZero a ∧ IsZero b) →
      (∃! op, op ∈ [BinaryOp.lt, .eq, .gt] ∧ Holds op a b) ∧
        (Holds .le a b ↔ Holds .lt a b ∨ Holds .eq a b) ∧
        (Holds .ge a b ↔ Holds .gt a b ∨ Holds .eq a b)) ∧
    ((∀ v ∈ [a, b, c], v.kind = .decimal) ∨ Keeps a b ∧ Keeps b c ∧ Keeps a c →
      (Holds .eq a b → Holds .eq b c → Holds .eq a c) ∧
        (Holds .le a b → Holds .le b c → Holds .le a c)) :=
  ⟨holds_trichotomy ha hb, holds_trans ha hb hc⟩

def decimalOf (mantissa scale : Nat) : Value :=
  .decimal ((Decimal.ofParts? false mantissa scale).getD .zero)

theorem comparison_of_tenth :
    ((decimalOf 1 1).IsNumeric ∧ (Value.number 0.1).IsNumeric ∧ (decimalOf 25 2).IsNumeric) ∧
    ((decimalOf 1 1).isBlank = (Value.number 0.1).isBlank ∧
      ∃! op, op ∈ [BinaryOp.lt, .eq, .gt] ∧ Holds op (decimalOf 1 1) (.number 0.1)) ∧
    Keeps (decimalOf 1 1) (decimalOf 25 2) ∧ Holds .le (decimalOf 1 1) (.number 0.1) ∧
      Holds .le (.number 0.1) (decimalOf 25 2) ∧ Holds .le (decimalOf 1 1) (decimalOf 25 2) :=
  have hnumber : (Value.number 0.1).IsNumeric := by
    change Float.isNaN 0.1 = false
    decide +kernel
  have hkeeps : Keeps (decimalOf 1 1) (decimalOf 25 2) := by
    rintro x y hx hy
    cases hx
    cases hy
    decide +kernel
  have hle : Holds .le (decimalOf 1 1) (.number 0.1) := by decide +kernel
  have hge : Holds .le (.number 0.1) (decimalOf 25 2) := by decide +kernel
  have h := comparison_of_numeric (a := decimalOf 1 1) (b := .number 0.1) (c := decimalOf 25 2)
    trivial hnumber trivial
  ⟨⟨trivial, hnumber, trivial⟩, ⟨rfl, (h.1 (.inl rfl)).1⟩,
    hkeeps, hle, hge, (h.2 (.inr ⟨nofun, nofun, hkeeps⟩)).2 hle hge⟩

/-- No order holds between a blank and zero. A number can be equal to two decimals of which one is
greater, and the greater of two decimals can be the smaller binary number. -/
theorem comparison_without_order :
    (∀ op ∈ [BinaryOp.lt, .eq, .gt], ¬ Holds op .blank (.number 0.0)) ∧
    (Holds .eq (decimalOf 1 1) (.number 0.1) ∧
      Holds .eq (.number 0.1) (decimalOf (10 ^ 27 + 1) 28) ∧
      ¬ Holds .eq (decimalOf 1 1) (decimalOf (10 ^ 27 + 1) 28)) ∧
    (Holds .le (decimalOf (10 ^ 27 + 1) 28) (.number 0.1) ∧
      Holds .le (.number 0.1) (decimalOf 1 1) ∧
      ¬ Holds .le (decimalOf (10 ^ 27 + 1) 28) (decimalOf 1 1)) ∧
    (Holds .le (decimalOf 2 5) (decimalOf (2 * 10 ^ 20 + 1) 25) ∧
      Holds .le (decimalOf (2 * 10 ^ 20 + 1) 25) (.number 0.000019999999999999998) ∧
      ¬ Holds .le (decimalOf 2 5) (.number 0.000019999999999999998)) := by
  decide +kernel

end Formula

end FormulaShell
