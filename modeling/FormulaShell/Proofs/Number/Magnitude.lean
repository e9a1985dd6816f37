import FormulaShell.Proofs.Number.Reading

namespace FormulaShell.Number

open Float.Model Float.Model.UnpackedFloat

/-- Zero, or a finite number of at most `b` without its sign. -/
inductive Bounded (b : ℚ) : UnpackedFloat → Prop where
  | zero (s : Sign) : Bounded b (.zero s)
  | finite (s : Sign) {m : ℕ} {q : ℤ} (hc : Canonical m q) :
      (m : ℚ) * 2 ^ q ≤ b → Bounded b (.finite s m q hc.pos)

def AtMost (b : ℚ) (x : Float) : Prop := Bounded b x.toModel.unpack

def greatest : ℚ := (2 ^ 53 - 1) * 2 ^ (971 : ℤ)

def ceiling : ℚ := (2 ^ 53 - 1 / 2) * 2 ^ (971 : ℤ)

section

variable {a b : ℚ} {u : UnpackedFloat} {x : Float}

theorem Bounded.mono (h : Bounded a u) (hab : a ≤ b) : Bounded b u := by
  cases h with
  | zero s => exact .zero s
  | finite s hc hle => exact .finite s hc (hle.trans hab)

theorem Canonical.le_greatest {m : ℕ} {q : ℤ} (hc : Canonical m q) :
    (m : ℚ) * 2 ^ q ≤ greatest := by
  have hm : (m : ℚ) + 1 ≤ 2 ^ 53 := by exact_mod_cast hc.small
  exact mul_le_mul (by linarith) (zpow_le_zpow_right₀ one_le_two hc.most) (two_zpow_pos q).le
    (by norm_num)

theorem ceiling_lt : ceiling < 2 ^ (1024 : ℤ) := by
  calc ceiling < 2 ^ 53 * 2 ^ (971 : ℤ) := mul_lt_mul_of_pos_right (by norm_num) (two_zpow_pos 971)
    _ = 2 ^ (1024 : ℤ) := by
        rw [← zpow_natCast, ← zpow_add₀ two_ne_zero]
        rfl

theorem greatest_add_lt : greatest + 2 ^ (969 : ℤ) < ceiling := by
  have hunit : (2 : ℚ) ^ (971 : ℤ) = 2 ^ (2 : ℤ) * 2 ^ (969 : ℤ) := zpow_add₀ two_ne_zero 2 969
  have hpos := two_zpow_pos 969
  rw [greatest, ceiling, hunit]
  generalize (2 : ℚ) ^ (969 : ℤ) = t at hpos ⊢
  linarith

theorem unpack_pack_zero (s : Sign) :
    UnpackedFloat.unpack Format.binary64 (UnpackedFloat.pack Format.binary64 (.zero s)) =
      .zero s := by
  cases s <;> rfl

theorem Bounded.unpack_pack (h : Bounded b u) :
    UnpackedFloat.unpack Format.binary64 (UnpackedFloat.pack Format.binary64 u) = u := by
  cases h with
  | zero s => exact unpack_pack_zero s
  | @finite s m q hc _ =>
    by_cases hf : 2 ^ 52 ≤ m
    · exact unpack_pack_full hc hf
    · exact unpack_pack_scant hc (by omega)

theorem Bounded.atMost (h : Bounded b u) : AtMost b (.ofModel (.pack u)) := by
  change Bounded b (UnpackedFloat.unpack Format.binary64 (UnpackedFloat.pack Format.binary64 u))
  rwa [h.unpack_pack]

theorem toNat_unpackExponent (b : BitVec 64) :
    (@unpackExponent Format.binary64 b).toNat = b.toNat / 2 ^ 52 % 2 ^ 11 := by
  rw [unpackExponent, BitVec.toNat_cast, BitVec.extractLsb_toNat, Nat.shiftRight_eq_div_pow]
  rfl

theorem isFinite_iff_exponent : isFinite x = true ↔ x.toBits.toNat / 2 ^ 52 % 2 ^ 11 ≠ 2047 := by
  have hparts :
      parts x = if x.toBits.toNat / 2 ^ 52 % 2 ^ 11 = 2047 then _ else if _ then _ else _ := rfl
  rw [isFinite]
  by_cases h : x.toBits.toNat / 2 ^ 52 % 2 ^ 11 = 2047
  · rw [hparts, if_pos h]
    refine iff_of_false ?_ (not_not.mpr h)
    by_cases hf : x.toBits.toNat % twoTo 52 = 0
    · simp [hf]
    · simp [hf]
  · rw [hparts, if_neg h]
    refine iff_of_true ?_ h
    by_cases hf : x.toBits.toNat / twoTo 52 % twoTo 11 = 0
    · simp [hf]
    · simp [hf]

theorem isFinite_unpack : x.toModel.unpack.isFinite = isFinite x := by
  have hones : @unpackExponent Format.binary64 x.toModel.toBits.toBitVec = -1#11 ↔
      ¬ isFinite x = true := by
    rw [isFinite_iff_exponent, not_not, ← BitVec.toNat_inj, toNat_unpackExponent]
    rfl
  rw [Float.Model.unpack, UnpackedFloat.unpack]
  dsimp only
  by_cases hx : isFinite x = true
  · rw [if_neg fun h => hones.mp h hx, hx]
    split
    · split <;> rfl
    · rfl
  · rw [if_pos (hones.mpr hx), Bool.eq_false_iff.mpr hx]
    split <;> rfl

theorem AtMost.isFinite (h : AtMost b x) : isFinite x = true := by
  rw [← isFinite_unpack]
  rw [AtMost] at h
  generalize x.toModel.unpack = u at h
  cases h <;> rfl

theorem exists_zero_of_parts {negative : Bool} {q : ℤ} (h : parts x = .finite negative 0 q) :
    ∃ s, x = .ofModel (.pack (.zero s)) := by
  obtain rfl | rfl := eq_zero_of_parts h
  · exact ⟨.positive, eq_of_toNat_toBits (by decide +kernel)⟩
  · exact ⟨.negative, eq_of_toNat_toBits (by decide +kernel)⟩

theorem atMost_of_parts {negative : Bool} {m : ℕ} {q : ℤ} (hp : parts x = .finite negative m q)
    (h : Canonical m q → (m : ℚ) * 2 ^ q ≤ b) : AtMost b x := by
  obtain rfl | hm := Nat.eq_zero_or_pos m
  · obtain ⟨s, rfl⟩ := exists_zero_of_parts hp
    exact (Bounded.zero s).atMost
  · have hc := canonical_of_parts hp hm
    rw [eq_ofParts hp hm, AtMost, unpack_ofParts hc]
    exact .finite _ hc (h hc)

theorem atMost_of_isFinite (h : isFinite x = true) : AtMost greatest x := by
  obtain ⟨negative, m, q, hp⟩ := exists_parts_of_isFinite h
  exact atMost_of_parts hp Canonical.le_greatest

end

section

variable {M : ℕ} {e k : ℤ} {accuracy : Accuracy} {r v : ℚ}

theorem roundedMantissa_le (em : ExtendedMantissa) : em.roundedMantissa ≤ em.mantissa + 1 := by
  obtain ⟨m, b, c⟩ := em
  cases b <;> cases c <;>
    simp only [ExtendedMantissa.roundedMantissa, ExtendedMantissa.accuracy,
      Accuracy.roundToNearestEven] <;> omega

theorem le_roundedMantissa (em : ExtendedMantissa) : em.mantissa ≤ em.roundedMantissa := by
  obtain ⟨m, b, c⟩ := em
  cases b <;> cases c <;>
    simp only [ExtendedMantissa.roundedMantissa, ExtendedMantissa.accuracy,
      Accuracy.roundToNearestEven] <;> omega

theorem Brackets.roundedMantissa_le {em : ExtendedMantissa} {n : ℕ} (h : Brackets em r)
    (hr : r < n + 1 / 2) : em.roundedMantissa ≤ n := by
  have hfloor := h.floor.1
  obtain ⟨m, b, c⟩ := em
  cases b with
  | false =>
    have hm : (m : ℚ) < (n + 1 : ℕ) := by
      push_cast
      linarith
    have : m < n + 1 := by exact_mod_cast hm
    cases c <;> exact Nat.le_of_lt_succ this
  | true =>
    have hm : (m : ℚ) < n := by cases c <;> simp only [Brackets] at h <;> linarith
    have : m < n := by exact_mod_cast hm
    exact (Number.roundedMantissa_le _).trans this

theorem roundWithAccuracy_of_zero {s : Sign} {em : ExtendedMantissa} {t : ℤ}
    (h : shiftToTargetExponent Format.binary64 M e accuracy = (em, t))
    (hem : em.roundedMantissa = 0) :
    roundWithAccuracy Format.binary64 s M e accuracy = .zero s := by
  have hzero : (shiftToTargetExponent Format.binary64 0 t .exact).1.mantissa = 0 := by
    have hb : Brackets (.ofMantissaAndAccuracy 0 .exact) 0 := Nat.cast_zero.symm
    have hfloor :=
      (hb.shiftRight (Format.binary64.targetExponent (totalExponent 0 t) - t).toNat).floor.1
    rw [zero_div] at hfloor
    exact Nat.le_zero.mp (by exact_mod_cast hfloor)
  rw [roundWithAccuracy]
  simp only [h, hem]
  exact dif_pos hzero

/-- A mantissa and an exponent to which a value below `2 ^ k` has been rounded. The mantissa may have
become the next power of two. -/
structure Rounded (v : ℚ) (k : ℤ) (n : ℕ) (t : ℤ) : Prop where
  small : n ≤ 2 ^ 53
  least : -1074 ≤ t
  most : t ≤ 971
  full : 2 ^ 52 ≤ n ∨ t = -1074
  within : (n : ℚ) * 2 ^ t ≤ 2 ^ k
  half (m : ℕ) : v < (m + 1 / 2) * 2 ^ t → n ≤ m

theorem targetExponent_full {t : ℤ} (ht : Format.binary64.targetExponent (totalExponent M e) = t)
    (he : e ≤ t) (hlow : (M : ℚ) * 2 ^ e ≤ v) :
    t = -1074 ∨ t = totalExponent M e - 53 ∧ 2 ^ (totalExponent M e - 1) ≤ v := by
  rw [targetExponent_eq] at ht
  obtain rfl | hM := Nat.eq_zero_or_pos M
  · have hT0 : totalExponent 0 e = e + 1 := by
      change ((0 : ℕ) : ℤ) + 1 + e = e + 1
      omega
    rw [hT0] at ht
    exact .inl (by omega)
  · have hle := two_zpow_totalExponent_le hM hlow
    by_cases hleast : t = -1074
    · exact .inl hleast
    · exact .inr ⟨by omega, hle⟩

theorem exists_rounded (hb : Brackets (.ofMantissaAndAccuracy M accuracy) r) (hv : v = r * 2 ^ e)
    (he : e ≤ Format.binary64.targetExponent (totalExponent M e)) (hk : -1074 ≤ k)
    (hk' : k ≤ 1024) (hlt : v < 2 ^ k) :
    ∃ em t, shiftToTargetExponent Format.binary64 M e accuracy = (em, t) ∧
      Rounded v k em.roundedMantissa t := by
  obtain ⟨hlo, hhi⟩ := hb.floor
  rw [mantissa_ofMantissaAndAccuracy] at hlo hhi
  have hlow : (M : ℚ) * 2 ^ e ≤ v := hv ▸ mul_le_mul_of_nonneg_right hlo (two_zpow_pos e).le
  have hT : v < 2 ^ totalExponent M e := by
    refine lt_two_zpow_totalExponent (hv ▸ mul_lt_mul_of_pos_right ?_ (two_zpow_pos e))
    exact_mod_cast hhi
  obtain ⟨em, hem, hbm⟩ := exists_shiftToTargetExponent hb hv rfl he
  generalize ht : Format.binary64.targetExponent (totalExponent M e) = t at hem hbm he
  have hfull := targetExponent_full ht he hlow
  rw [targetExponent_eq] at ht
  have htk : t = -1074 ∨ t + 53 ≤ k := by
    obtain h | ⟨h, hle⟩ := hfull
    · exact .inl h
    · have := two_zpow_lt.mp (hle.trans_lt hlt)
      omega
  have hmantissa {n : ℕ} (hn : v < 2 ^ (t + n)) : em.roundedMantissa ≤ 2 ^ n := by
    have hdiv : v / 2 ^ t < 2 ^ n := by
      rwa [div_lt_iff₀ (two_zpow_pos t), ← zpow_natCast, mul_comm, ← zpow_add₀ two_ne_zero]
    have hlt : (em.mantissa : ℚ) < (2 ^ n : ℕ) := by
      push_cast
      exact hbm.floor.1.trans_lt hdiv
    exact (roundedMantissa_le em).trans (by exact_mod_cast hlt)
  refine ⟨em, t, hem, ?_, by omega, by omega, ?_, ?_, fun m hm => ?_⟩
  case _ => exact hmantissa (hT.trans_le (zpow_le_zpow_right₀ one_le_two (by omega)))
  case _ =>
    obtain h | ⟨h, hle⟩ := hfull
    · exact .inr h
    · refine .inl ((Nat.lt_succ_iff.mp ?_).trans (le_roundedMantissa em))
      have hdiv : (2 : ℚ) ^ 52 ≤ v / 2 ^ t := by
        rw [le_div_iff₀ (two_zpow_pos t), ← zpow_natCast, ← zpow_add₀ two_ne_zero]
        exact le_trans (zpow_le_zpow_right₀ one_le_two (by omega)) hle
      have := hdiv.trans_lt hbm.floor.2
      exact_mod_cast this
  case _ =>
    have hkt : t + (k - t).toNat = k := by omega
    have hn := hmantissa (n := (k - t).toNat) (by rwa [hkt])
    calc (em.roundedMantissa : ℚ) * 2 ^ t ≤ (2 ^ (k - t).toNat : ℕ) * 2 ^ t :=
          mul_le_mul_of_nonneg_right (by exact_mod_cast hn) (two_zpow_pos t).le
      _ = 2 ^ k := by
          rw [Nat.cast_pow, Nat.cast_ofNat, ← zpow_natCast, ← zpow_add₀ two_ne_zero, add_comm, hkt]
  case _ => exact hbm.roundedMantissa_le ((div_lt_iff₀ (two_zpow_pos t)).mpr hm)

/-- The conditions under which a value below a power of two is rounded to a number. -/
structure Safe (v : ℚ) (k : ℤ) : Prop where
  least : -1074 ≤ k
  most : k ≤ 1024
  lt : v < 2 ^ k
  ceiling : v < ceiling

/-- What is rounded stays within a power of two that it lies below, and is finite below the
ceiling. -/
theorem bounded_roundWithAccuracy {s : Sign}
    (hb : Brackets (.ofMantissaAndAccuracy M accuracy) r) (hv : v = r * 2 ^ e)
    (he : e ≤ Format.binary64.targetExponent (totalExponent M e)) (hsafe : Safe v k) :
    Bounded (2 ^ k) (roundWithAccuracy Format.binary64 s M e accuracy) := by
  obtain ⟨em, t, hem, h⟩ := exists_rounded hb hv he hsafe.least hsafe.most hsafe.lt
  obtain hn | hn := Nat.eq_zero_or_pos em.roundedMantissa
  · rw [roundWithAccuracy_of_zero hem hn]
    exact .zero s
  obtain hsmall | hlarge := Nat.lt_or_eq_of_le h.small
  · have hc : Canonical em.roundedMantissa t := ⟨hn, hsmall, h.least, h.most, h.full⟩
    rw [roundWithAccuracy_of_shifts hem (shiftToTargetExponent_canonical hc) hn]
    exact .finite s hc h.within
  · have ht : t ≠ 971 := by
      rintro rfl
      have hle := h.half (2 ^ 53 - 1) (by
        refine hsafe.ceiling.trans_eq ?_
        rw [ceiling]
        norm_num)
      omega
    have hc : Canonical (2 ^ 52) (t + 1) :=
      ⟨by decide, by decide, by have := h.least; omega, by have := h.most; omega, .inl le_rfl⟩
    have hshift : shiftToTargetExponent Format.binary64 em.roundedMantissa t .exact =
        (⟨2 ^ 52, false, false⟩, t + 1) := by
      rw [hlarge]
      have hover := shiftToTargetExponent_overflow (q := t + 1) (by have := h.least; omega)
      rwa [add_sub_cancel_right] at hover
    rw [roundWithAccuracy_of_shifts hem hshift hc.pos]
    refine .finite s hc (le_trans (le_of_eq ?_) h.within)
    rw [hlarge, zpow_add_one₀ two_ne_zero]
    push_cast
    ring

theorem two_zpow_lt_ceiling (hk : k ≤ 1023) : (2 : ℚ) ^ k < ceiling := by
  calc (2 : ℚ) ^ k ≤ 2 ^ (1023 : ℤ) := zpow_le_zpow_right₀ one_le_two hk
    _ = 2 ^ 52 * 2 ^ (971 : ℤ) := by rw [← zpow_natCast, ← zpow_add₀ two_ne_zero]; rfl
    _ < ceiling := mul_lt_mul_of_pos_right (by norm_num) (two_zpow_pos 971)

theorem safe_of_le {b : ℚ} (hv : v ≤ b) (hb : b < 2 ^ k) (hk : -1074 ≤ k) (hk' : k ≤ 1023) :
    Safe v k :=
  ⟨hk, by omega, hv.trans_lt hb, (hv.trans_lt hb).trans (two_zpow_lt_ceiling hk')⟩

theorem log2_shiftLeft (hM : 0 < M) (n : ℕ) : (M <<< n).log2 = M.log2 + n := by
  rw [Nat.shiftLeft_eq, Nat.log2_eq_iff (by positivity), Nat.pow_add, Nat.add_right_comm,
    Nat.pow_add]
  exact ⟨Nat.mul_le_mul_right _ (Nat.log2_self_le hM.ne'),
    Nat.mul_lt_mul_of_pos_right Nat.lt_log2_self (by positivity)⟩

theorem bounded_round {s : Sign} (hM : 0 < M) (hv : Safe (M * 2 ^ e) k) :
    Bounded (2 ^ k) (UnpackedFloat.round Format.binary64 s M e) := by
  rw [UnpackedFloat.round]
  simp only [decreaseExponent]
  generalize hn : (e - Format.binary64.targetExponent (totalExponent M e)).toNat = n
  refine bounded_roundWithAccuracy (r := (M <<< n : ℕ)) rfl (shiftLeft_mul_two_zpow M n e).symm
    ?_ hv
  have htotal : totalExponent (M <<< n) (e - n) = totalExponent M e := by
    rw [totalExponent, totalExponent, log2_shiftLeft hM]
    push_cast
    ring
  rw [htotal]
  omega

theorem bounded_normalize {n : ℤ} (zero : Sign) (hv : Safe (n.natAbs * 2 ^ e) k) :
    Bounded (2 ^ k) (UnpackedFloat.normalize Format.binary64 n e zero) := by
  rw [UnpackedFloat.normalize]
  rcases hcmp : compare n 0 with _ | _ | _
  · have hneg := compare_lt_iff_lt.mp hcmp
    have habs : (-n).toNat = n.natAbs := by omega
    exact habs ▸ bounded_round (by omega) hv
  · exact .zero zero
  · have hpos := compare_gt_iff_gt.mp hcmp
    have habs : n.toNat = n.natAbs := by omega
    exact habs ▸ bounded_round (by omega) hv

end

section

variable {a b : ℚ} {k : ℤ} {u w : UnpackedFloat}

theorem natAbs_apply (s : Sign) (n : ℕ) : (s.apply n).natAbs = n := by
  cases s
  · exact Int.natAbs_neg n
  · rfl

theorem sum_le (s₁ s₂ : Sign) {m₁ m₂ : ℕ} {q₁ q₂ : ℤ} (ha : (m₁ : ℚ) * 2 ^ q₁ ≤ a)
    (hb : (m₂ : ℚ) * 2 ^ q₂ ≤ b) :
    (((s₁.apply (m₁ <<< (q₁ - min q₁ q₂).toNat : ℕ) +
      s₂.apply (m₂ <<< (q₂ - min q₁ q₂).toNat : ℕ)).natAbs : ℕ) : ℚ) * 2 ^ min q₁ q₂ ≤ a + b := by
  have hsum := Int.natAbs_add_le (s₁.apply (m₁ <<< (q₁ - min q₁ q₂).toNat : ℕ))
    (s₂.apply (m₂ <<< (q₂ - min q₁ q₂).toNat : ℕ))
  rw [natAbs_apply, natAbs_apply] at hsum
  have hshift (m : ℕ) (q : ℤ) (hq : min q₁ q₂ ≤ q) :
      ((m <<< (q - min q₁ q₂).toNat : ℕ) : ℚ) * 2 ^ min q₁ q₂ = m * 2 ^ q := by
    have hsub : q - (q - min q₁ q₂).toNat = min q₁ q₂ := by omega
    rw [← shiftLeft_mul_two_zpow m (q - min q₁ q₂).toNat q, hsub]
  calc _ ≤ ((m₁ <<< (q₁ - min q₁ q₂).toNat + m₂ <<< (q₂ - min q₁ q₂).toNat : ℕ) : ℚ) *
          2 ^ min q₁ q₂ := mul_le_mul_of_nonneg_right (by exact_mod_cast hsum) (two_zpow_pos _).le
    _ = m₁ * 2 ^ q₁ + m₂ * 2 ^ q₂ := by
        rw [Nat.cast_add, add_mul, hshift m₁ q₁ (min_le_left _ _), hshift m₂ q₂ (min_le_right _ _)]
    _ ≤ a + b := add_le_add ha hb

theorem Bounded.add (hu : Bounded a u) (hw : Bounded b w) (ha : 0 ≤ a) (hb : 0 ≤ b)
    (h : Safe (a + b) k) :
    Bounded (2 ^ k) (UnpackedFloat.add Format.binary64 u w) := by
  have hka : a ≤ 2 ^ k := by linarith [h.lt]
  have hkb : b ≤ 2 ^ k := by linarith [h.lt]
  cases hu with
  | zero s =>
    cases hw with
    | zero s' =>
      rw [UnpackedFloat.add]
      split <;> exact .zero _
    | finite s' hc hle => exact .finite s' hc (hle.trans hkb)
  | finite s hc hle =>
    cases hw with
    | zero s' => exact .finite s hc (hle.trans hka)
    | finite s' hc' hle' =>
      rw [UnpackedFloat.add]
      exact bounded_normalize _ ⟨h.least, h.most, (sum_le s s' hle hle').trans_lt h.lt,
        (sum_le s s' hle hle').trans_lt h.ceiling⟩

theorem le_targetExponent_product {m₁ m₂ : ℕ} {q₁ q₂ : ℤ} (h₁ : Canonical m₁ q₁)
    (h₂ : Canonical m₂ q₂) :
    q₁ + q₂ ≤ Format.binary64.targetExponent (totalExponent (m₁ * m₂) (q₁ + q₂)) := by
  by_cases hfull : 2 ^ 52 ≤ m₁ * m₂
  · exact le_targetExponent_of_full hfull
  · have hm₁ : m₁ ≤ m₁ * m₂ := Nat.le_mul_of_pos_right _ h₂.pos
    have hm₂ : m₂ ≤ m₁ * m₂ := Nat.le_mul_of_pos_left _ h₁.pos
    have hq₁ := h₁.full.resolve_left (by omega)
    have hq₂ := h₂.full.resolve_left (by omega)
    rw [targetExponent_eq]
    exact le_max_of_le_right (by omega)

theorem Bounded.mul (hu : Bounded a u) (hw : Bounded b w) (h : Safe (a * b) k) :
    Bounded (2 ^ k) (UnpackedFloat.mul Format.binary64 u w) := by
  cases hu with
  | zero s => cases hw <;> exact .zero _
  | @finite s m q hc hle =>
    cases hw with
    | zero s' => exact .zero _
    | @finite s' m' q' hc' hle' =>
      have hvalue : ((m * m' : ℕ) : ℚ) * 2 ^ (q + q') ≤ a * b := by
        rw [Nat.cast_mul, zpow_add₀ two_ne_zero, mul_mul_mul_comm]
        exact mul_le_mul hle hle' (by positivity) (le_trans (by positivity) hle)
      exact bounded_roundWithAccuracy (r := (m * m' : ℕ)) rfl rfl (le_targetExponent_product hc hc')
        ⟨h.least, h.most, hvalue.trans_lt h.lt, hvalue.trans_lt h.ceiling⟩

theorem bounded_mul_full {v : ℚ} {s₁ s₂ : Sign} {m₁ m₂ : ℕ} {e₁ e₂ : ℤ} (h₁ : 0 < m₁) (h₂ : 0 < m₂)
    (hv : v = (m₁ * m₂ : ℕ) * 2 ^ (e₁ + e₂)) (hfull : 2 ^ 52 ≤ m₁ * m₂) (h : Safe v k) :
    Bounded (2 ^ k) (UnpackedFloat.mul Format.binary64 (.finite s₁ m₁ e₁ h₁) (.finite s₂ m₂ e₂ h₂)) :=
  bounded_roundWithAccuracy (r := (m₁ * m₂ : ℕ)) rfl hv (le_targetExponent_of_full hfull) h

theorem Bounded.div (hu : Bounded a u) {s : Sign} {m : ℕ} {q : ℤ} (hm : 0 < m)
    (hone : (1 : ℚ) ≤ m * 2 ^ q) (h : Safe a k) :
    Bounded (2 ^ k) (UnpackedFloat.div Format.binary64 u (.finite s m q hm)) := by
  cases hu with
  | zero s' => exact .zero _
  | @finite s' m' q' hc hle =>
    rw [UnpackedFloat.div, divCore]
    generalize ht : min (q' - q) _ = t
    have h1 : t ≤ q' - q := ht ▸ min_le_left _ _
    have h2 : t ≤ Format.binary64.targetExponent (totalExponent m' q' - totalExponent m q) :=
      ht ▸ min_le_right _ _
    have hshift : ((m' <<< (q' - q - t).toNat : ℕ) : ℚ) * 2 ^ t * 2 ^ q = m' * 2 ^ q' := by
      have hsub : q' - (q' - q - t).toNat = t + q := by omega
      rw [← shiftLeft_mul_two_zpow m' (q' - q - t).toNat q', hsub, zpow_add₀ two_ne_zero, mul_assoc]
    have hvalue : ((m' <<< (q' - q - t).toNat : ℕ) : ℚ) / m * 2 ^ t ≤ a := by
      have hmq : ((m' <<< (q' - q - t).toNat : ℕ) : ℚ) / m * 2 ^ t =
          m' * 2 ^ q' / (m * 2 ^ q) := by
        have hq := (two_zpow_pos q).ne'
        have hmne : (m : ℚ) ≠ 0 := by exact_mod_cast hm.ne'
        rw [← hshift]
        field_simp
      rw [hmq]
      exact (div_le_self (by positivity) hone).trans hle
    exact bounded_roundWithAccuracy (brackets_accuracyOfFraction _ _ hm) rfl
      (le_targetExponent_quotient hc.pos hm h1 h2)
      ⟨h.least, h.most, hvalue.trans_lt h.lt, hvalue.trans_lt h.ceiling⟩

theorem exists_brackets (M : ℕ) (accuracy : Accuracy) :
    ∃ r, Brackets (.ofMantissaAndAccuracy M accuracy) r := by
  obtain _ | _ | _ | _ := accuracy
  · exact ⟨M, rfl⟩
  · exact ⟨M + 1 / 4, by constructor <;> linarith⟩
  · exact ⟨M + 1 / 2, rfl⟩
  · exact ⟨M + 3 / 4, by constructor <;> linarith⟩

theorem Bounded.neg (h : Bounded a u) : Bounded a u.neg := by
  cases h with
  | zero s => exact .zero _
  | finite s hc hle => exact .finite _ hc hle

theorem Bounded.abs (h : Bounded a u) : Bounded a u.abs := by
  cases h with
  | zero s => exact .zero _
  | finite s hc hle => exact .finite _ hc hle

theorem le_targetExponent_sqrt {m : ℕ} {e t : ℤ} (hm : 0 < m) (ht : t ≤ e / 2)
    (h : t ≤ Format.binary64.targetExponent ((totalExponent m e + 1) / 2)) :
    t ≤ Format.binary64.targetExponent
      (totalExponent (Nat.sqrt (m <<< (e - 2 * t).toNat)) t) := by
  generalize hs : (e - 2 * t).toNat = s
  have hshift : 2 * t + s = e := by omega
  have hlog : (m.log2 + s) / 2 ≤ (Nat.sqrt (m <<< s)).log2 := by
    have hle : 2 ^ ((m.log2 + s) / 2) ≤ Nat.sqrt (m <<< s) := by
      rw [Nat.le_sqrt', ← Nat.pow_mul]
      calc 2 ^ ((m.log2 + s) / 2 * 2) ≤ 2 ^ (m.log2 + s) :=
            Nat.pow_le_pow_right (by decide) (Nat.div_mul_le_self _ 2)
        _ ≤ m <<< s := by
            rw [Nat.pow_add, Nat.shiftLeft_eq]
            exact Nat.mul_le_mul_right _ (Nat.log2_self_le hm.ne')
    exact (Nat.le_log2 (Nat.ne_of_gt (lt_of_lt_of_le (by positivity) hle))).mpr hle
  rw [targetExponent_eq] at h ⊢
  simp only [totalExponent] at h ⊢
  omega

theorem sqrt_mul_two_zpow_sq_le {m : ℕ} {e t : ℤ} (ht : t ≤ e / 2) :
    ((Nat.sqrt (m <<< (e - 2 * t).toNat) : ℚ) * 2 ^ t) ^ 2 ≤ m * 2 ^ e := by
  have hsub : e - (e - 2 * t).toNat = t + t := by omega
  rw [← shiftLeft_mul_two_zpow m (e - 2 * t).toNat e, hsub, zpow_add₀ two_ne_zero, mul_pow,
    ← pow_two]
  exact mul_le_mul_of_nonneg_right (by exact_mod_cast Nat.sqrt_le' _) (by positivity)

theorem Canonical.bounded_sqrt {m : ℕ} {q : ℤ} (hc : Canonical m q) :
    Bounded (2 ^ (514 : ℤ)) (UnpackedFloat.sqrt Format.binary64 (.finite .positive m q hc.pos)) := by
  rw [UnpackedFloat.sqrt, sqrtCore]
  generalize ht : min (q.ediv 2) _ = t
  have h1 : t ≤ q / 2 := ht ▸ min_le_left _ _
  have h2 : t ≤ Format.binary64.targetExponent ((totalExponent m q + 1) / 2) :=
    ht ▸ min_le_right _ _
  have hroot : (Nat.sqrt (m <<< (q - 2 * t).toNat) : ℚ) * 2 ^ t < 2 ^ (512 : ℤ) := by
    refine lt_of_pow_lt_pow_left₀ 2 (two_zpow_pos 512).le ?_
    refine (sqrt_mul_two_zpow_sq_le h1).trans_lt (hc.le_greatest.trans_lt ?_)
    rw [← zpow_natCast, ← zpow_mul]
    exact (lt_add_of_pos_right _ (two_zpow_pos 969)).trans (greatest_add_lt.trans ceiling_lt)
  have hone : (1 : ℚ) ≤ Nat.sqrt (m <<< (q - 2 * t).toNat) := by
    have hpos : 0 < m <<< (q - 2 * t).toNat := by
      rw [Nat.shiftLeft_eq]
      exact Nat.mul_pos hc.pos (by positivity)
    exact_mod_cast Nat.sqrt_pos.mpr hpos
  obtain ⟨r, hr⟩ := exists_brackets (Nat.sqrt (m <<< (q - 2 * t).toNat)) _
  refine bounded_roundWithAccuracy hr rfl (le_targetExponent_sqrt hc.pos h1 h2)
    (safe_of_le (b := 2 ^ (513 : ℤ)) ?_ (two_zpow_lt.mpr (by decide)) (by decide) (by decide))
  have hr' : r ≤ 2 * Nat.sqrt (m <<< (q - 2 * t).toNat) := by
    have hfloor := hr.floor.2
    rw [mantissa_ofMantissaAndAccuracy] at hfloor
    linarith
  calc r * 2 ^ t ≤ 2 * Nat.sqrt (m <<< (q - 2 * t).toNat) * 2 ^ t :=
        mul_le_mul_of_nonneg_right hr' (two_zpow_pos t).le
    _ = Nat.sqrt (m <<< (q - 2 * t).toNat) * 2 ^ t * 2 := by ring
    _ ≤ 2 ^ (512 : ℤ) * 2 := mul_le_mul_of_nonneg_right hroot.le two_pos.le
    _ = 2 ^ (513 : ℤ) := by rw [← zpow_add_one₀ two_ne_zero]; rfl

end

section

variable {a b : ℚ} {k : ℤ} {x y : Float}

theorem AtMost.mono (h : AtMost a x) (hab : a ≤ b) : AtMost b x := Bounded.mono h hab

theorem AtMost.neg (h : AtMost a x) : AtMost a (-x) := (Bounded.neg h).atMost

theorem AtMost.abs (h : AtMost a x) : AtMost a x.abs := (Bounded.abs h).atMost

theorem AtMost.signed (h : AtMost a x) (negative : Bool) : AtMost a (signed negative x) := by
  cases negative
  · exact h
  · exact h.neg

theorem AtMost.add (hx : AtMost a x) (hy : AtMost b y) (ha : 0 ≤ a) (hb : 0 ≤ b)
    (h : Safe (a + b) k) : AtMost (2 ^ k) (x + y) :=
  (Bounded.add hx hy ha hb h).atMost

theorem AtMost.mul (hx : AtMost a x) (hy : AtMost b y) (h : Safe (a * b) k) :
    AtMost (2 ^ k) (x * y) :=
  (Bounded.mul hx hy h).atMost

theorem AtMost.div (hx : AtMost a x) {negative : Bool} {m : ℕ} {q : ℤ} (hc : Canonical m q)
    (hy : y = ofParts negative m q hc.pos) (hone : (1 : ℚ) ≤ m * 2 ^ q) (h : Safe a k) :
    AtMost (2 ^ k) (x / y) := by
  subst hy
  have hdiv := (Bounded.div (s := signOf negative) hx hc.pos hone h).atMost
  rwa [← unpack_ofParts hc] at hdiv

/-- The greatest number is further from the ceiling than a quarter of its unit. -/
theorem isFinite_add (hx : isFinite x = true) (hy : AtMost (2 ^ (969 : ℤ)) y) :
    isFinite (x + y) = true := by
  have hgreatest : 0 ≤ greatest := mul_nonneg (by norm_num) (two_zpow_pos 971).le
  have hsafe : Safe (greatest + 2 ^ (969 : ℤ)) 1024 :=
    ⟨by decide, by decide, greatest_add_lt.trans ceiling_lt, greatest_add_lt⟩
  exact ((atMost_of_isFinite hx).add hy hgreatest (two_zpow_pos 969).le hsafe).isFinite

theorem isFinite_neg (h : isFinite x = true) : isFinite (-x) = true :=
  (atMost_of_isFinite h).neg.isFinite

theorem isFinite_abs (h : isFinite x = true) : isFinite x.abs = true :=
  (atMost_of_isFinite h).abs.isFinite

theorem zero_eq : (0.0 : Float) = .ofModel (.pack (.zero .positive)) :=
  eq_of_toNat_toBits (by decide +kernel)

theorem unpack_zero : (0.0 : Float).toModel.unpack = .zero .positive := by
  rw [zero_eq]
  exact unpack_pack_zero .positive

theorem isFinite_sqrt (h : isFinite x = true) (hx : ¬ x < 0.0) : isFinite x.sqrt = true := by
  have hbound := atMost_of_isFinite h
  have hx : ¬ UnpackedFloat.lt x.toModel.unpack (0.0 : Float).toModel.unpack = true :=
    fun hlt => hx (decide_eq_true hlt)
  suffices hroot :
      Bounded (2 ^ (514 : ℤ)) (UnpackedFloat.sqrt Format.binary64 x.toModel.unpack) from
    hroot.atMost.isFinite
  rw [AtMost] at hbound
  rw [unpack_zero] at hx
  generalize x.toModel.unpack = u at hbound hx ⊢
  cases hbound with
  | zero s => exact .zero s
  | finite s hc _ =>
    cases s with
    | negative => exact absurd rfl hx
    | positive => exact hc.bounded_sqrt

end

section

variable {n : ℕ} {k : ℤ}

theorem atMost_ofNat (hn : (n : ℚ) < 2 ^ k) (hk : -1074 ≤ k) (hk' : k ≤ 1023) :
    AtMost (2 ^ k) (Float.ofNat n) := by
  have hsafe : Safe n k := safe_of_le le_rfl hn hk hk'
  obtain rfl | hpos := Nat.eq_zero_or_pos n
  · have hzero : Float.ofNat 0 = 0.0 := eq_of_toNat_toBits (by decide +kernel)
    rw [hzero, AtMost, unpack_zero]
    exact .zero .positive
  change AtMost _ (Float.ofScientific n false 0)
  rw [Float.ofScientific]
  by_cases hquick : n < 2 ^ 53 ∧ 0 ≤ 22
  · rw [dif_pos hquick]
    have hc := canonical_shiftLeft hpos hquick.1
    have hnear : Nearest n (n <<< (52 - n.log2)) (n.log2 - 52) := by
      have := nearest_self (n <<< (52 - n.log2)) (n.log2 - 52)
      rwa [shiftLeft_value hquick.1 hpos] at this
    have heq := mul_power_zero_eq hpos hc hnear hquick.1 (by decide)
    change AtMost _ (n.toUInt64.toFloat * powerOfTen 0 _)
    rw [heq, AtMost, unpack_ofParts hc]
    refine .finite _ hc (le_of_eq_of_le ?_ hn.le)
    exact shiftLeft_value hquick.1 hpos
  · rw [dif_neg hquick]
    refine Bounded.atMost ?_
    have hbits : ((2 : ℤ) ^ Format.binary64.exponentBits) = 2048 := rfl
    change Bounded _ (UnpackedFloat.ofScientific Format.binary64 n 0)
    rw [UnpackedFloat.ofScientific, dif_neg hpos.ne', hbits, if_neg (by omega), if_neg (by omega),
      if_pos le_rfl]
    refine bounded_mul_full _ _ ?_ ?_ hsafe
    · rw [Int.toNat_zero, Nat.pow_zero, Nat.mul_one, add_zero, ← zero_sub, shiftLeft_mul_two_zpow,
        zpow_zero, mul_one]
    · rw [Int.toNat_zero, Nat.pow_zero, Nat.mul_one, Nat.shiftLeft_eq]
      change 2 ^ 52 ≤ n * 2 ^ 53
      omega

theorem isFinite_ofCount (n : ℕ) : isFinite (ofCount n) = true := by
  have hlt : n.toUInt64.toNat < 2 ^ 64 := n.toUInt64.toNat_lt
  have hsafe : Safe ((n.toUInt64.toNat : ℤ).natAbs * 2 ^ (0 : ℤ)) 64 := by
    refine safe_of_le le_rfl ?_ (by decide) (by decide)
    rw [Int.natAbs_natCast, zpow_zero, mul_one]
    exact_mod_cast hlt
  exact (bounded_normalize .positive hsafe).atMost.isFinite

theorem atMost_ofCount (hn : n < 2 ^ 53) : AtMost n (ofCount n) := by
  obtain rfl | hpos := Nat.eq_zero_or_pos n
  · have hzero : ofCount 0 = 0.0 := eq_of_toNat_toBits (by decide +kernel)
    rw [hzero, AtMost, unpack_zero]
    exact .zero .positive
  · have hc := canonical_shiftLeft hpos hn
    rw [ofCount, toFloat_eq hpos hn, AtMost, unpack_ofParts hc]
    exact .finite _ hc (le_of_eq (shiftLeft_value hn hpos))

end

end FormulaShell.Number
