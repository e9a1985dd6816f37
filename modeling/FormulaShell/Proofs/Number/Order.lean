import FormulaShell.Formula.Operators
import FormulaShell.Proofs.Number.Magnitude
import Mathlib.Data.Prod.Lex

namespace FormulaShell.Number

open Float.Model Float.Model.UnpackedFloat

/-- By sign, then by exponent, then by mantissa, and the other way round below zero. What is not a
number goes last. -/
def rankOf : UnpackedFloat → ℤ ×ₗ ℤ ×ₗ ℤ
  | .infinity .negative => toLex (-2, toLex (0, 0))
  | .finite .negative m q _ => toLex (-1, toLex (-q, -m))
  | .zero _ => toLex (0, toLex (0, 0))
  | .finite .positive m q _ => toLex (1, toLex (q, m))
  | .infinity .positive => toLex (2, toLex (0, 0))
  | .notANumber => toLex (3, toLex (0, 0))

def rank (x : Float) : ℤ ×ₗ ℤ ×ₗ ℤ := rankOf x.toModel.unpack

theorem compares_rank (s : ℤ) (q r : ℤ) (m n : ℕ) :
    ((compare q r).then (compare m n)).Compares (toLex (s, toLex (q, (m : ℤ))))
      (toLex (s, toLex (r, (n : ℤ)))) := by
  obtain h | rfl | h := lt_trichotomy q r
  · rw [compare_lt_iff_lt.mpr h]
    simp [Ordering.Compares, Prod.Lex.toLex_lt_toLex, h]
  · rw [compare_eq_iff_eq.mpr rfl]
    obtain h | rfl | h := lt_trichotomy m n
    · rw [compare_lt_iff_lt.mpr h]
      simp [Ordering.Compares, Prod.Lex.toLex_lt_toLex, h]
    · rw [compare_eq_iff_eq.mpr rfl]
      rfl
    · rw [compare_gt_iff_gt.mpr h]
      simp [Ordering.Compares, Prod.Lex.toLex_lt_toLex, h]
  · rw [compare_gt_iff_gt.mpr h]
    simp [Ordering.Compares, Prod.Lex.toLex_lt_toLex, h]

theorem compares_rank_neg (s : ℤ) (q r : ℤ) (m n : ℕ) :
    ((compare q r).then (compare m n)).swap.Compares (toLex (s, toLex (-q, (-m : ℤ))))
      (toLex (s, toLex (-r, (-n : ℤ)))) := by
  have h := compares_rank s q r m n
  generalize (compare q r).then (compare m n) = o at h ⊢
  cases o <;> simp [Ordering.Compares, Prod.Lex.toLex_lt_toLex] at h ⊢ <;> omega

/-- Numbers on different sides are compared by side, and of the same side, if they are finite, by
exponent and mantissa. -/
theorem exists_compares {u w : UnpackedFloat} (hu : u.isNaN = false) (hw : w.isNaN = false) :
    ∃ o, u.compare w = some o ∧ o.Compares (rankOf u) (rankOf w) := by
  have lt {s s' : ℤ} {p p' : ℤ ×ₗ ℤ} (h : s < s') : toLex (s, p) < toLex (s', p') :=
    Prod.Lex.toLex_lt_toLex.mpr (.inl h)
  rcases u with ⟨_ | _⟩ | _ | _ | ⟨_ | _, m, q, hm⟩ <;>
    rcases w with ⟨_ | _⟩ | _ | _ | ⟨_ | _, n, r, hn⟩
  all_goals first
    | exact Bool.noConfusion hu
    | exact Bool.noConfusion hw
    | exact ⟨.eq, rfl, rfl⟩
    | exact ⟨.lt, rfl, lt (by decide)⟩
    | exact ⟨.gt, rfl, lt (by decide)⟩
    | exact ⟨_, rfl, compares_rank 1 q r m n⟩
    | exact ⟨_, rfl, compares_rank_neg (-1) q r m n⟩

theorem Canonical.le_of_compare {m n : ℕ} {q r : ℤ} (hm : Canonical m q) (hn : Canonical n r)
    (h : ((compare q r).then (compare m n)).isLE = true) : (m : ℚ) * 2 ^ q ≤ n * 2 ^ r := by
  obtain hqr | rfl | hqr := lt_trichotomy q r
  · have hfull : (2 : ℚ) ^ 52 ≤ n := by
      have := hn.full
      have := hm.least
      exact_mod_cast (show 2 ^ 52 ≤ n by omega)
    calc (m : ℚ) * 2 ^ q ≤ 2 ^ 53 * 2 ^ q :=
          mul_le_mul_of_nonneg_right (by exact_mod_cast hm.small.le) (two_zpow_pos q).le
      _ = 2 ^ 52 * 2 ^ (q + 1) := by
          rw [zpow_add_one₀ two_ne_zero]
          ring
      _ ≤ n * 2 ^ r := mul_le_mul hfull (zpow_le_zpow_right₀ one_le_two hqr)
          (two_zpow_pos _).le (Nat.cast_nonneg n)
  · rw [compare_eq_iff_eq.mpr rfl] at h
    have hmn : m ≤ n := Nat.isLE_compare.mp h
    exact mul_le_mul_of_nonneg_right (by exact_mod_cast hmn) (two_zpow_pos q).le
  · rw [compare_gt_iff_gt.mpr hqr] at h
    cases h

variable {x y z : Float}

theorem le_iff : x ≤ y ↔ (x.toModel.unpack.compare y.toModel.unpack).any (·.isLE) = true :=
  decide_eq_true_iff

theorem wholePart_le {b : ℚ} (hxy : x ≤ y) (hy : AtMost b y) (hb : 0 ≤ b) : wholePart x ≤ b := by
  cases hp : parts x with
  | infinite | nan => simpa [wholePart, hp] using hb
  | finite negative m q =>
    obtain rfl | hm := Nat.eq_zero_or_pos m
    · suffices hzero : wholePart x = 0 by simpa [hzero] using hb
      cases negative <;> cases q <;> simp [wholePart, hp]
    cases negative with
    | true => simpa [wholePart, hp] using hb
    | false =>
      have hc := canonical_of_parts hp hm
      have hle := le_iff.mp hxy
      rw [eq_ofParts hp hm, unpack_ofParts hc] at hle
      have hvalue : (m : ℚ) * 2 ^ q ≤ b := by
        rw [AtMost] at hy
        generalize y.toModel.unpack = u at hy hle
        cases hy with
        | zero s => cases s <;> cases hle
        | finite s hn h =>
          cases s with
          | negative => cases hle
          | positive => exact (hc.le_of_compare hn hle).trans h
      refine le_trans ?_ hvalue
      cases q with
      | ofNat k =>
        rw [wholePart, hp, Int.ofNat_eq_natCast, zpow_natCast]
        exact_mod_cast le_rfl
      | negSucc k =>
        rw [wholePart, hp, zpow_negSucc, ← div_eq_mul_inv]
        exact_mod_cast Nat.cast_div_le

theorem le_wholePart {n m₀ : ℕ} {q₀ : ℤ} (hc₀ : Canonical m₀ q₀) (hn : n ≤ (m₀ : ℚ) * 2 ^ q₀)
    (h : ofParts false m₀ q₀ hc₀.pos ≤ x) (hx : isFinite x = true) : n ≤ wholePart x := by
  obtain ⟨negative, m, q, hp⟩ := exists_parts_of_isFinite hx
  rw [le_iff, unpack_ofParts hc₀] at h
  obtain rfl | hm := Nat.eq_zero_or_pos m
  · obtain ⟨s, rfl⟩ := exists_zero_of_parts hp
    cases s <;> cases h
  have hc := canonical_of_parts hp hm
  rw [eq_ofParts hp hm, unpack_ofParts hc] at h
  cases negative with
  | true => cases h
  | false =>
    have hvalue := hn.trans (hc₀.le_of_compare hc h)
    cases q with
    | ofNat k =>
      rw [Int.ofNat_eq_natCast, zpow_natCast] at hvalue
      rw [wholePart, hp]
      exact_mod_cast hvalue
    | negSucc k =>
      rw [zpow_negSucc, ← div_eq_mul_inv, le_div_iff₀ (by positivity)] at hvalue
      rw [wholePart, hp]
      exact (Nat.le_div_iff_mul_le (Nat.two_pow_pos _)).mpr (by exact_mod_cast hvalue)

theorem one_le_wholePart (h : 1.0 ≤ x) (hx : isFinite x = true) : 1 ≤ wholePart x := by
  have hone : Canonical (2 ^ 52) (-52) := ⟨by decide, by decide, by decide, by decide, .inl le_rfl⟩
  have heq : (1.0 : Float) = ofParts false (2 ^ 52) (-52) (by decide) :=
    eq_of_toNat_toBits (by decide +kernel)
  exact le_wholePart hone (by norm_num) (heq ▸ h) hx

theorem isNaN_of_isFinite (h : isFinite x = true) : x.isNaN = false := by
  change x.toModel.unpack.isNaN = false
  rw [← isFinite_unpack] at h
  generalize x.toModel.unpack = u at h
  cases u <;> first | rfl | cases h

theorem isNaN_of_le (h : x ≤ y) : x.isNaN = false ∧ y.isNaN = false := by
  rw [le_iff] at h
  change x.toModel.unpack.isNaN = false ∧ y.toModel.unpack.isNaN = false
  generalize x.toModel.unpack = u at h ⊢
  generalize y.toModel.unpack = w at h ⊢
  rcases u with ⟨_ | _⟩ | _ | _ | ⟨_ | _, m, q, hm⟩ <;>
    rcases w with ⟨_ | _⟩ | _ | _ | ⟨_ | _, n, r, hn⟩ <;>
    first
      | exact ⟨rfl, rfl⟩
      | cases h

theorem isFinite_of_between (hxy : x ≤ y) (hyz : y ≤ z) (hx : isFinite x = true)
    (hz : isFinite z = true) : isFinite y = true := by
  rw [← isFinite_unpack] at hx hz ⊢
  rw [le_iff] at hxy hyz
  generalize x.toModel.unpack = u at hx hxy
  generalize z.toModel.unpack = w at hz hyz
  generalize y.toModel.unpack = v at hxy hyz ⊢
  -- An infinite number would be beyond one of the finite ones.
  rcases v with ⟨_ | _⟩ | _ | _ | _
  case infinity.negative =>
    cases u <;> first | exact Bool.noConfusion hx | exact Bool.noConfusion hxy
  case infinity.positive =>
    cases w <;> first | exact Bool.noConfusion hz | exact Bool.noConfusion hyz
  case notANumber => cases w <;> exact Bool.noConfusion hyz
  all_goals rfl

theorem lt_iff : x < y ↔ x.toModel.unpack.compare y.toModel.unpack = some .lt :=
  decide_eq_true_iff.trans beq_iff_eq

theorem beq_iff : (x == y) = true ↔ x.toModel.unpack.compare y.toModel.unpack = some .eq := by
  change (x.toModel.unpack.compare y.toModel.unpack == some .eq) = true ↔ _
  exact beq_iff_eq

variable (hx : x.isNaN = false) (hy : y.isNaN = false)
include hx hy

theorem lt_iff_rank : x < y ↔ rank x < rank y := by
  obtain ⟨o, ho, hc⟩ := exists_compares (u := x.toModel.unpack) hx hy
  rw [lt_iff, ho, Option.some_inj]
  exact hc.eq_lt

theorem beq_iff_rank : (x == y) = true ↔ rank x = rank y := by
  obtain ⟨o, ho, hc⟩ := exists_compares (u := x.toModel.unpack) hx hy
  rw [beq_iff, ho, Option.some_inj]
  exact hc.eq_eq

theorem le_iff_rank : x ≤ y ↔ rank x ≤ rank y := by
  obtain ⟨o, ho, hc⟩ := exists_compares (u := x.toModel.unpack) hx hy
  rw [le_iff, ho, Option.any_some]
  cases o with
  | lt => exact iff_of_true rfl (le_of_lt hc)
  | eq => exact iff_of_true rfl (le_of_eq hc)
  | gt => exact iff_of_false Bool.false_ne_true (not_le_of_gt hc)

/-- Two numbers always have an order, and it is that of their ranks. -/
theorem floatOrder?_eq : Formula.floatOrder? x y = some (cmp (rank x) (rank y)) := by
  rw [Formula.floatOrder?]
  obtain h | h | h := lt_trichotomy (rank x) (rank y)
  · rw [if_pos ((lt_iff_rank hx hy).mpr h), (cmp_eq_lt_iff _ _).mpr h]
  · have hlt : ¬ x < y := fun hlt => ((lt_iff_rank hx hy).mp hlt).ne h
    rw [if_neg hlt, if_pos ((beq_iff_rank hx hy).mpr h), (cmp_eq_eq_iff _ _).mpr h]
  · have hlt : ¬ x < y := fun hlt => ((lt_iff_rank hx hy).mp hlt).asymm h
    have heq : ¬ (x == y) = true := fun heq => h.ne' ((beq_iff_rank hx hy).mp heq)
    rw [if_neg hlt, if_neg heq, if_pos ((lt_iff_rank hy hx).mpr h), (cmp_eq_gt_iff _ _).mpr h]

omit hy in
theorem nonneg_of_one_le (h : 1.0 ≤ x) : 0.0 ≤ x := by
  have hzero : Float.isNaN 0.0 = false := by decide +kernel
  have hone : Float.isNaN 1.0 = false := by decide +kernel
  have hle : (0.0 : Float) ≤ 1.0 := by decide +kernel
  exact (le_iff_rank hzero hx).mpr
    (((le_iff_rank hzero hone).mp hle).trans ((le_iff_rank hone hx).mp h))

omit hx hy in
theorem lt_of_le_atMost {b : ℚ} (h : x ≤ y) (hb : AtMost b y) (hpos : 0 ≤ b) (hlt : b < 2 ^ 64) :
    x < 18446744073709551616.0 := by
  obtain ⟨hx, hy⟩ := isNaN_of_le h
  have hlimit : Float.isNaN 18446744073709551616.0 = false := by decide +kernel
  have hwhole : wholePart 18446744073709551616.0 = 2 ^ 64 := by decide +kernel
  rw [lt_iff_rank hx hlimit]
  refine lt_of_not_ge fun hge => ?_
  have hle := (le_iff_rank hlimit hy).mpr (hge.trans ((le_iff_rank hx hy).mp h))
  have hbound := wholePart_le hle hb hpos
  rw [hwhole] at hbound
  exact absurd (hbound.trans_lt hlt) (by norm_num)

end FormulaShell.Number
