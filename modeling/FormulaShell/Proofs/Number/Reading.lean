import FormulaShell.Number.Read
import FormulaShell.Proofs.Number.Rounding

namespace FormulaShell.Number

open Float.Model Float.Model.UnpackedFloat

theorem brackets_accuracyOfFraction (n d : ℕ) (hd : 0 < d) :
    Brackets (.ofMantissaAndAccuracy (n / d) (accuracyOfFraction (n % d) d)) ((n : ℚ) / d) := by
  have hdq : (0 : ℚ) < d := by exact_mod_cast hd
  have hn : (n : ℚ) = d * (n / d : ℕ) + (n % d : ℕ) := by exact_mod_cast (Nat.div_add_mod n d).symm
  have hlt : ((n % d : ℕ) : ℚ) < d := by exact_mod_cast Nat.mod_lt n hd
  have hr : (n : ℚ) / d = (n / d : ℕ) + ((n % d : ℕ) : ℚ) / d := by
    rw [hn, add_div, mul_div_cancel_left₀ _ hdq.ne']
  rw [hr, accuracyOfFraction]
  generalize n / d = w
  generalize n % d = k at hlt
  by_cases hk : k = 0
  · rw [if_pos hk, hk, Nat.cast_zero, zero_div, add_zero]
    rfl
  · have hkq : (0 : ℚ) < k := by exact_mod_cast Nat.pos_of_ne_zero hk
    have hpos := div_pos hkq hdq
    have hone := (div_lt_one hdq).mpr hlt
    rw [if_neg hk]
    rcases hcmp : compare (2 * k) d with _ | _ | _
    · have h2 : (2 * k : ℚ) < d := by exact_mod_cast compare_lt_iff_lt.mp hcmp
      have := (div_lt_iff₀ hdq).mpr (show (k : ℚ) < 1 / 2 * d by linarith)
      exact ⟨by linarith, by linarith⟩
    · have h2 : (2 * k : ℚ) = d := by exact_mod_cast compare_eq_iff_eq.mp hcmp
      have := (div_eq_iff hdq.ne').mpr (show (k : ℚ) = 1 / 2 * d by linarith)
      change _ = _
      linarith
    · have h2 : (d : ℚ) < 2 * k := by exact_mod_cast compare_gt_iff_gt.mp hcmp
      have := (lt_div_iff₀ hdq).mpr (show 1 / 2 * (d : ℚ) < k by linarith)
      exact ⟨by linarith, by linarith⟩

section

variable {v : ℚ} {m m₁ m₂ : ℕ} {q e₁ e₂ : ℤ} {s₁ s₂ : Sign}

theorem le_targetExponent_quotient {e : ℤ} (h₁ : 0 < m₁) (h₂ : 0 < m₂) (h : e ≤ e₁ - e₂)
    (he : e ≤ Format.binary64.targetExponent (totalExponent m₁ e₁ - totalExponent m₂ e₂)) :
    e ≤ Format.binary64.targetExponent (totalExponent (m₁ <<< (e₁ - e₂ - e).toNat / m₂) e) := by
  rw [targetExponent_eq] at he ⊢
  by_cases hsub : e ≤ -1074
  · exact le_max_of_le_right hsub
  · have hbits : e ≤ totalExponent m₁ e₁ - totalExponent m₂ e₂ - 53 := by omega
    simp only [totalExponent] at hbits ⊢
    generalize hs : (e₁ - e₂ - e).toNat = s
    have hlog : m₁.log2 + s - m₂.log2 - 1 ≤ (m₁ <<< s / m₂).log2 := by
      have hle : 2 ^ (m₁.log2 + s - m₂.log2 - 1) ≤ m₁ <<< s / m₂ := by
        rw [Nat.le_div_iff_mul_le h₂, Nat.shiftLeft_eq]
        calc 2 ^ (m₁.log2 + s - m₂.log2 - 1) * m₂
            ≤ 2 ^ (m₁.log2 + s - m₂.log2 - 1) * 2 ^ (m₂.log2 + 1) :=
              Nat.mul_le_mul_left _ Nat.lt_log2_self.le
          _ = 2 ^ (m₁.log2 + s) := by
              rw [← Nat.pow_add]
              congr 1
              omega
          _ = 2 ^ m₁.log2 * 2 ^ s := Nat.pow_add ..
          _ ≤ m₁ * 2 ^ s := Nat.mul_le_mul_right _ (Nat.log2_self_le h₁.ne')
      exact (Nat.le_log2 (Nat.ne_of_gt (lt_of_lt_of_le (by positivity) hle))).mpr hle
    omega

theorem div_eq (hc : Canonical m q) (h : Nearest v m q) (h₁ : 0 < m₁) (h₂ : 0 < m₂)
    (hv : v * (m₂ * 2 ^ e₂) = m₁ * 2 ^ e₁) :
    UnpackedFloat.div Format.binary64 (.finite s₁ m₁ e₁ h₁) (.finite s₂ m₂ e₂ h₂) =
      .finite (s₁ / s₂) m q hc.pos := by
  rw [UnpackedFloat.div, divCore]
  generalize ht : min (e₁ - e₂) _ = t
  have h1 : t ≤ e₁ - e₂ := ht ▸ min_le_left _ _
  have h2 : t ≤ Format.binary64.targetExponent (totalExponent m₁ e₁ - totalExponent m₂ e₂) :=
    ht ▸ min_le_right _ _
  refine roundWithAccuracy_eq hc h (brackets_accuracyOfFraction _ _ h₂) ?_
    (le_targetExponent_quotient h₁ h₂ h1 h2)
  have hshift : (2 : ℚ) ^ (e₁ - e₂ - t).toNat = 2 ^ e₁ / 2 ^ e₂ / 2 ^ t := by
    rw [← zpow_natCast, Int.toNat_of_nonneg (by omega), zpow_sub₀ two_ne_zero,
      zpow_sub₀ two_ne_zero]
  have hm₂ : (m₂ : ℚ) ≠ 0 := by exact_mod_cast h₂.ne'
  rw [Nat.shiftLeft_eq, Nat.cast_mul, Nat.cast_pow, Nat.cast_ofNat, hshift]
  field_simp
  linarith

theorem le_targetExponent_of_full {M : ℕ} {e : ℤ} (h : 2 ^ 52 ≤ M) :
    e ≤ Format.binary64.targetExponent (totalExponent M e) := by
  have := (Nat.le_log2 (by omega)).mpr h
  rw [targetExponent_eq, totalExponent]
  omega

theorem mul_eq (hc : Canonical m q) (h : Nearest v m q) (h₁ : 0 < m₁) (h₂ : 0 < m₂)
    (hv : v = (m₁ * m₂ : ℕ) * 2 ^ (e₁ + e₂))
    (hfull : 2 ^ 52 ≤ m₁ * m₂) :
    UnpackedFloat.mul Format.binary64 (.finite s₁ m₁ e₁ h₁) (.finite s₂ m₂ e₂ h₂) =
      .finite (s₁ * s₂) m q hc.pos :=
  @roundWithAccuracy_eq v (m₁ * m₂ : ℕ) m (m₁ * m₂) q (e₁ + e₂) (s₁ * s₂) .exact hc h rfl hv
    (le_targetExponent_of_full hfull)

end

theorem canonical_shiftLeft {n : ℕ} (hpos : 0 < n) (hlt : n < 2 ^ 53) :
    Canonical (n <<< (52 - n.log2)) (n.log2 - 52) := by
  have hlog : n.log2 < 53 := (Nat.log2_lt hpos.ne').mpr hlt
  have h1 : 2 ^ n.log2 * 2 ^ (52 - n.log2) = 2 ^ 52 := by
    rw [← Nat.pow_add]
    congr 1
    omega
  have h2 : 2 ^ (n.log2 + 1) * 2 ^ (52 - n.log2) = 2 ^ 53 := by
    rw [← Nat.pow_add]
    congr 1
    omega
  have hlow : 2 ^ 52 ≤ n <<< (52 - n.log2) := by
    rw [Nat.shiftLeft_eq, ← h1]
    exact Nat.mul_le_mul_right _ (Nat.log2_self_le hpos.ne')
  refine ⟨by omega, ?_, by omega, by omega, .inl hlow⟩
  rw [Nat.shiftLeft_eq, ← h2]
  exact Nat.mul_lt_mul_of_pos_right Nat.lt_log2_self (by positivity)

theorem shiftLeft_mul_two_zpow (M n : ℕ) (e : ℤ) :
    ((M <<< n : ℕ) : ℚ) * 2 ^ (e - n) = M * 2 ^ e := by
  rw [Nat.shiftLeft_eq, Nat.cast_mul, Nat.cast_pow, Nat.cast_ofNat, mul_assoc, ← zpow_natCast,
    ← zpow_add₀ two_ne_zero, add_sub_cancel]

theorem shiftLeft_value {n : ℕ} (hlt : n < 2 ^ 53) (hpos : 0 < n) :
    ((n <<< (52 - n.log2) : ℕ) : ℚ) * 2 ^ ((n.log2 : ℤ) - 52) = n := by
  have hlog : n.log2 < 53 := (Nat.log2_lt hpos.ne').mpr hlt
  have he : (n.log2 : ℤ) - 52 = 0 - (52 - n.log2 : ℕ) := by omega
  rw [he, shiftLeft_mul_two_zpow, zpow_zero, mul_one]

theorem toFloat_eq {n : ℕ} (hpos : 0 < n) (hlt : n < 2 ^ 53) :
    n.toUInt64.toFloat =
      ofParts false (n <<< (52 - n.log2)) (n.log2 - 52) (canonical_shiftLeft hpos hlt).pos := by
  have hn : n.toUInt64.toNat = n := Nat.mod_eq_of_lt (by omega)
  change Float.ofModel (.pack (UnpackedFloat.ofNat _ n.toUInt64.toNat)) = _
  have hcmp : compare (n : ℤ) 0 = .gt := compare_gt_iff_gt.mpr (by omega)
  have ht : Format.binary64.targetExponent (totalExponent n 0) = n.log2 - 52 := by
    rw [targetExponent_eq, totalExponent]
    omega
  have hs : (0 - ((n.log2 : ℤ) - 52)).toNat = 52 - n.log2 := by omega
  have hlog : n.log2 < 53 := (Nat.log2_lt hpos.ne').mpr hlt
  have he : (0 : ℤ) - (52 - n.log2 : ℕ) = n.log2 - 52 := by omega
  have hc := canonical_shiftLeft hpos hlt
  rw [hn, UnpackedFloat.ofNat, UnpackedFloat.ofInt, UnpackedFloat.normalize, hcmp]
  simp only [UnpackedFloat.round, Int.toNat_natCast, ht, decreaseExponent, hs, he]
  rw [@roundWithAccuracy_eq _ _ _ _ _ _ .positive .exact hc (nearest_self _ _) rfl rfl
    (targetExponent_canonical hc).ge]
  rfl

def powerOfTen (k : ℕ) (h : k < 23) : Float :=
  GetElem.getElem Float.exactlyRepresentablePowersOfTen k h

theorem parts_powerOfTen : ∀ k : Fin 23,
    parts (powerOfTen k k.isLt) =
      .finite false (10 ^ k.val * 2 ^ 52 / 2 ^ (10 ^ k.val).log2) ((10 ^ k.val).log2 - 52) ∧
    10 ^ k.val * 2 ^ 52 / 2 ^ (10 ^ k.val).log2 * 2 ^ (10 ^ k.val).log2 = 10 ^ k.val * 2 ^ 52 := by
  decide +kernel

theorem exists_power {k : ℕ} (h : k < 23) :
    ∃ m q, ∃ hc : Canonical m q,
      powerOfTen k h = ofParts false m q hc.pos ∧
        (m : ℚ) * 2 ^ q = 10 ^ k := by
  obtain ⟨hparts, hmul⟩ := parts_powerOfTen ⟨k, h⟩
  have hval : ((10 ^ k * 2 ^ 52 / 2 ^ (10 ^ k).log2 : ℕ) : ℚ) * 2 ^ ((10 ^ k).log2 : ℕ) =
      10 ^ k * 2 ^ 52 := by exact_mod_cast hmul
  have hpos : 0 < 10 ^ k * 2 ^ 52 / 2 ^ (10 ^ k).log2 := by
    by_contra h0
    rw [Nat.eq_zero_of_not_pos h0, Nat.cast_zero, zero_mul] at hval
    exact absurd hval (by positivity)
  refine ⟨_, _, canonical_of_parts hparts hpos, eq_ofParts hparts hpos, ?_⟩
  rw [zpow_sub₀ two_ne_zero, zpow_natCast, mul_div_assoc', hval]
  exact mul_div_cancel_right₀ _ (by positivity)

section

variable {M k m : ℕ} {q : ℤ} {v : ℚ}

theorem Nearest.two_zpow_le (h : Nearest v m q) (hc : Canonical m q) : 2 ^ (-1075 : ℤ) ≤ v := by
  refine le_trans ?_ h.half
  calc (2 : ℚ) ^ (-1075 : ℤ) = 1 / 2 * 2 ^ (-1074 : ℤ) := by
        rw [show (-1075 : ℤ) = -1074 - 1 by rfl, zpow_sub_one₀ two_ne_zero]
        ring
    _ ≤ ((m : ℚ) - 1 / 2) * 2 ^ q := by
        have hm : (1 : ℚ) ≤ m := by exact_mod_cast hc.pos
        have hq : (2 : ℚ) ^ (-1074 : ℤ) ≤ 2 ^ q := zpow_le_zpow_right₀ one_le_two hc.least
        exact mul_le_mul (by linarith) hq (two_zpow_pos _).le (by linarith)

theorem Nearest.lt_two_pow (h : Nearest v m q) (hc : Canonical m q) : v < 2 ^ 1024 := by
  refine (h.lt_two_zpow hc).trans_le ?_
  rw [← zpow_natCast]
  exact zpow_le_zpow_right₀ one_le_two (by have := hc.most; omega)

theorem length_toDigits_bounds (hM : 0 < M) :
    10 ^ ((Nat.toDigits 10 M).length - 1) ≤ M ∧ M < 10 ^ (Nat.toDigits 10 M).length := by
  have hpos : 0 < (Nat.toDigits 10 M).length := Nat.length_toDigits_pos
  refine ⟨?_, (Nat.length_toDigits_le_iff (by decide) hpos).mp le_rfl⟩
  by_cases h1 : (Nat.toDigits 10 M).length - 1 = 0
  · rw [h1]
    exact hM
  · by_contra hlt
    have := (Nat.length_toDigits_le_iff (by decide) (Nat.pos_of_ne_zero h1)).mpr
      (Nat.lt_of_not_le hlt)
    omega

variable (hM : 0 < M) (hc : Canonical m q) (h : Nearest ((M : ℚ) / 10 ^ k) m q)

include hM hc h

theorem exponent_bounds :
    -330 ≤ ((Nat.toDigits 10 M).length : ℤ) - k ∧
      ((Nat.toDigits 10 M).length : ℤ) - k ≤ 310 ∧ k ≤ 2048 + M.log2 := by
  have hlow := h.two_zpow_le hc
  have hhigh := h.lt_two_pow hc
  obtain ⟨hge, hlt⟩ := length_toDigits_bounds hM
  have hpos : 0 < (Nat.toDigits 10 M).length := Nat.length_toDigits_pos
  generalize (Nat.toDigits 10 M).length = L at hge hlt hpos ⊢
  have hten : (0 : ℚ) < 10 ^ k := by positivity
  have hlow' : 10 ^ k ≤ M * 2 ^ 1075 := by
    rw [le_div_iff₀ hten, zpow_neg, inv_mul_le_iff₀ (two_zpow_pos _), zpow_ofNat, mul_comm] at hlow
    exact_mod_cast hlow
  have hhigh' : M < 2 ^ 1024 * 10 ^ k := by
    rw [div_lt_iff₀ hten] at hhigh
    exact_mod_cast hhigh
  refine ⟨?_, ?_, ?_⟩
  · by_contra hcut
    have hpow : 10 ^ 331 * 10 ^ L ≤ 10 ^ k := by
      rw [← Nat.pow_add]
      exact Nat.pow_le_pow_right (by decide) (by omega)
    have hlt' : 10 ^ 331 * 10 ^ L < 2 ^ 1075 * 10 ^ L := by
      rw [Nat.mul_comm (2 ^ 1075)]
      exact (hpow.trans hlow').trans_lt (Nat.mul_lt_mul_of_pos_right hlt (by positivity))
    exact absurd (Nat.lt_of_mul_lt_mul_right hlt') (by decide +kernel)
  · by_contra hcut
    have hpow : 10 ^ 310 * 10 ^ k ≤ 10 ^ (L - 1) := by
      rw [← Nat.pow_add]
      exact Nat.pow_le_pow_right (by decide) (by omega)
    exact absurd (Nat.lt_of_mul_lt_mul_right ((hpow.trans hge).trans_lt hhigh'))
      (by decide +kernel)
  · by_contra hcut
    have hlog (n : ℕ) : M * 2 ^ n < 2 ^ (M.log2 + 1 + n) := by
      rw [Nat.pow_add]
      exact (Nat.mul_lt_mul_right (Nat.two_pow_pos n)).mpr Nat.lt_log2_self
    have hten : 2 ^ k ≤ 10 ^ k := Nat.pow_le_pow_left (by decide) k
    have := (Nat.pow_lt_pow_iff_right (by decide)).mp ((hten.trans hlow').trans_lt (hlog 1075))
    omega

theorem div_power_eq (hM53 : M < 2 ^ 53) (hk : k < 23) :
    M.toUInt64.toFloat / powerOfTen k hk = ofParts false m q hc.pos := by
  obtain ⟨m₂, q₂, hc₂, hpow, hval⟩ := exists_power hk
  rw [hpow, toFloat_eq hM hM53]
  change Float.ofModel (.pack (UnpackedFloat.div Format.binary64
    (ofParts false _ _ _).toModel.unpack (ofParts false m₂ q₂ _).toModel.unpack)) = _
  rw [unpack_ofParts (canonical_shiftLeft hM hM53), unpack_ofParts hc₂, div_eq hc h]
  · rfl
  · rw [hval, shiftLeft_value hM53 hM]
    field_simp

omit h in
theorem mul_power_zero_eq (h : Nearest M m q) (hM53 : M < 2 ^ 53) (h0 : 0 < 23) :
    M.toUInt64.toFloat * powerOfTen 0 h0 = ofParts false m q hc.pos := by
  obtain ⟨m₂, q₂, hc₂, hpow, hval⟩ := exists_power h0
  have hc₁ := canonical_shiftLeft hM hM53
  have hfull : 2 ^ 52 ≤ M <<< (52 - M.log2) := hc₁.full.resolve_right (by omega)
  rw [hpow, toFloat_eq hM hM53]
  change Float.ofModel (.pack (UnpackedFloat.mul Format.binary64
    (ofParts false _ _ _).toModel.unpack (ofParts false m₂ q₂ _).toModel.unpack)) = _
  rw [unpack_ofParts hc₁, unpack_ofParts hc₂, mul_eq hc h]
  · rfl
  · rw [Nat.cast_mul, zpow_add₀ two_ne_zero, mul_mul_mul_comm, hval, shiftLeft_value hM53 hM,
      pow_zero, mul_one]
  · exact hfull.trans (Nat.le_mul_of_pos_right _ hc₂.pos)

omit h in
theorem ofScientific_zero (h : Nearest M m q) :
    UnpackedFloat.ofScientific Format.binary64 M 0 = .finite .positive m q hc.pos := by
  have hbits : ((2 : ℤ) ^ Format.binary64.exponentBits) = 2048 := rfl
  rw [UnpackedFloat.ofScientific, dif_neg hM.ne', hbits, if_neg (by omega), if_neg (by omega),
    if_pos le_rfl]
  refine mul_eq hc h _ _ ?_ ?_
  · rw [Nat.shiftLeft_eq, Int.toNat_zero, Nat.pow_zero, Nat.mul_one, Nat.cast_mul, Nat.cast_pow,
      Nat.cast_ofNat, add_zero, zpow_neg, zpow_natCast, mul_inv_cancel_right₀ (by positivity)]
  · rw [Nat.shiftLeft_eq, Int.toNat_zero, Nat.pow_zero, Nat.mul_one]
    change 2 ^ 52 ≤ M * 2 ^ 53
    omega

theorem ofScientific_neg (hk : 0 < k) :
    UnpackedFloat.ofScientific Format.binary64 M (Int.negOfNat k) =
      .finite .positive m q hc.pos := by
  have hbound := (exponent_bounds hM hc h).2.2
  have he : Int.negOfNat k = -k := Int.negOfNat_eq
  have hbits : ((2 : ℤ) ^ Format.binary64.exponentBits) = 2048 := rfl
  rw [UnpackedFloat.ofScientific, dif_neg hM.ne', he, hbits, if_neg (by omega),
    if_neg (by omega), if_neg (by omega)]
  refine div_eq hc h _ _ ?_
  rw [neg_neg, Int.toNat_natCast, Nat.cast_pow, Nat.cast_ofNat, zpow_zero, mul_one, mul_one]
  field_simp

theorem ofScientific_eq :
    Float.ofScientific M (-(k : ℤ) < 0) (-(k : ℤ)).natAbs = ofParts false m q hc.pos := by
  rw [Int.natAbs_neg, Int.natAbs_natCast, Float.ofScientific]
  by_cases hk0 : k = 0
  · subst hk0
    rw [pow_zero, div_one] at h
    by_cases hquick : M < 2 ^ 53
    · rw [dif_pos ⟨hquick, by decide⟩]
      exact mul_power_zero_eq hM hc h hquick (by decide)
    · rw [dif_neg fun hq => hquick hq.1]
      change Float.ofModel (.pack (UnpackedFloat.ofScientific Format.binary64 M 0)) = _
      rw [ofScientific_zero hM hc h]
      rfl
  · have hneg : decide (-(k : ℤ) < 0) = true := decide_eq_true (by omega)
    rw [hneg]
    by_cases hquick : M < 2 ^ 53 ∧ k ≤ 22
    · rw [dif_pos hquick]
      exact div_power_eq hM hc h hquick.1 (by omega)
    · rw [dif_neg hquick]
      change Float.ofModel (.pack (UnpackedFloat.ofScientific Format.binary64 M _)) = _
      rw [if_pos rfl, ofScientific_neg hM hc h (Nat.pos_of_ne_zero hk0)]
      rfl

theorem ofDecimal_eq : ofDecimal M (-k) = ofParts false m q hc.pos := by
  obtain ⟨hlow, hhigh, -⟩ := exponent_bounds hM hc h
  rw [ofDecimal, if_neg (by omega), if_neg (by omega)]
  exact ofScientific_eq hM hc h

end

end FormulaShell.Number
