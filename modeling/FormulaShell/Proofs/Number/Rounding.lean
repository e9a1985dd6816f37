import FormulaShell.Proofs.Number.Packing

namespace FormulaShell.Number

open Float.Model Float.Model.UnpackedFloat

/-- Where a value lies in the unit interval from the mantissa on, as the two further bits tell. -/
def Brackets : ExtendedMantissa → ℚ → Prop
  | ⟨m, false, false⟩, r => r = m
  | ⟨m, false, true⟩, r => (m : ℚ) < r ∧ r < m + 1 / 2
  | ⟨m, true, false⟩, r => r = m + 1 / 2
  | ⟨m, true, true⟩, r => (m : ℚ) + 1 / 2 < r ∧ r < m + 1

section

variable {em : ExtendedMantissa} {r : ℚ}

theorem Brackets.floor (h : Brackets em r) : (em.mantissa : ℚ) ≤ r ∧ r < em.mantissa + 1 := by
  obtain ⟨m, b, c⟩ := em
  cases b <;> cases c <;> simp only [Brackets] at h <;> constructor <;> linarith

theorem Brackets.shiftRightOne (h : Brackets em r) : Brackets em.shiftRightOne (r / 2) := by
  obtain ⟨m, b, c⟩ := em
  have hm : (m : ℚ) = 2 * (m / 2 : ℕ) + (m % 2 : ℕ) := by exact_mod_cast (Nat.div_add_mod m 2).symm
  obtain h2 | h2 := Nat.mod_two_eq_zero_or_one m <;> rw [h2] at hm <;>
    cases b <;> cases c <;>
    simp only [Brackets, ExtendedMantissa.shiftRightOne, h2, bne_self_eq_false, Nat.cast_zero,
      Nat.cast_one, Bool.or_false, Bool.or_true, Bool.or_self,
      show (1 != 0) = true from rfl] at h hm ⊢
  all_goals first | linarith | (constructor <;> linarith)

theorem shiftRight_succ (em : ExtendedMantissa) (n : ℕ) :
    em >>> (n + 1) = (em >>> n).shiftRightOne := rfl

theorem Brackets.shiftRight (h : Brackets em r) (n : ℕ) : Brackets (em >>> n) (r / 2 ^ n) := by
  induction n with
  | zero =>
    rw [pow_zero, div_one]
    exact h
  | succ n ih =>
    rw [shiftRight_succ, pow_succ, ← div_div]
    exact ih.shiftRightOne

theorem Brackets.roundedMantissa_eq (h : Brackets em r) {m : ℕ} (lower : (m : ℚ) - 1 / 2 ≤ r)
    (upper : r ≤ m + 1 / 2) (tie : m % 2 = 1 → (m : ℚ) - 1 / 2 < r ∧ r < m + 1 / 2) :
    em.roundedMantissa = m := by
  obtain ⟨M, b, c⟩ := em
  have le_of_lt_succ {a b : ℕ} (hab : (a : ℚ) < b + 1) : a ≤ b := by
    have : a < b + 1 := by exact_mod_cast hab
    omega
  cases b with
  | false =>
    have hMm : M ≤ m := le_of_lt_succ (by linarith [h.floor.1])
    have hmM : m ≤ M := by
      apply le_of_lt_succ
      cases c <;> simp only [Brackets] at h <;> linarith
    have hM : ExtendedMantissa.roundedMantissa ⟨M, false, c⟩ = M := by cases c <;> rfl
    rw [hM]
    exact le_antisymm hMm hmM
  | true =>
    have hMm : M ≤ m := by
      apply le_of_lt_succ
      cases c <;> simp only [Brackets] at h <;> linarith
    have hmM : m ≤ M + 1 := by
      apply le_of_lt_succ
      push_cast
      linarith [h.floor.2]
    cases c with
    | false =>
      simp only [Brackets] at h
      change M + M % 2 = m
      obtain h2 | h2 := Nat.mod_two_eq_zero_or_one m
      · omega
      · obtain ⟨hl, hu⟩ := tie h2
        have h1 : M < m := by
          by_contra hlt
          obtain rfl : M = m := by omega
          linarith
        have h3 : m < M + 1 := by
          by_contra hlt
          obtain rfl : m = M + 1 := by omega
          push_cast at hl
          linarith
        omega
    | true =>
      simp only [Brackets] at h
      change M + 1 = m
      have hlt : M < m := by
        by_contra hlt
        obtain rfl : M = m := by omega
        linarith
      omega

/-- The value is nearer to `m * 2 ^ q` than to the numbers beside it, or halfway and `m` is even.
Below a power of two the neighbour is at half the distance. -/
structure Nearest (v : ℚ) (m : ℕ) (q : ℤ) : Prop where
  lower : ((m : ℚ) - if m = 2 ^ 52 ∧ q ≠ -1074 then 1 / 4 else 1 / 2) * 2 ^ q ≤ v
  upper : v ≤ (m + 1 / 2) * 2 ^ q
  tie : m % 2 = 1 → ((m : ℚ) - 1 / 2) * 2 ^ q < v ∧ v < (m + 1 / 2) * 2 ^ q

end

section

variable {v r : ℚ} {m M : ℕ} {q e : ℤ}

theorem two_zpow_pos (e : ℤ) : (0 : ℚ) < 2 ^ e := zpow_pos two_pos e

theorem two_zpow_lt {a b : ℤ} : (2 : ℚ) ^ a < 2 ^ b ↔ a < b :=
  zpow_lt_zpow_iff_right₀ one_lt_two

theorem Nearest.half (h : Nearest v m q) : ((m : ℚ) - 1 / 2) * 2 ^ q ≤ v := by
  refine le_trans ?_ h.lower
  apply mul_le_mul_of_nonneg_right _ (two_zpow_pos q).le
  split <;> linarith

theorem nearest_self (m : ℕ) (q : ℤ) : Nearest (m * 2 ^ q) m q := by
  have hq := two_zpow_pos q
  refine ⟨mul_le_mul_of_nonneg_right ?_ hq.le, mul_le_mul_of_nonneg_right ?_ hq.le, fun _ =>
    ⟨mul_lt_mul_of_pos_right ?_ hq, mul_lt_mul_of_pos_right ?_ hq⟩⟩
  · split <;> linarith
  all_goals linarith

theorem Nearest.two_mul_le (h : Nearest v m q) (hm : m = 2 ^ 52) (hq : q ≠ -1074) :
    2 * (m : ℚ) - 1 / 2 ≤ v / 2 ^ (q - 1) := by
  have h1 := h.lower
  rw [if_pos ⟨hm, hq⟩] at h1
  rw [le_div_iff₀ (two_zpow_pos _), zpow_sub_one₀ two_ne_zero]
  linarith

theorem lt_two_zpow_totalExponent (hv : v < (M + 1 : ℕ) * 2 ^ e) :
    v < 2 ^ totalExponent M e := by
  refine lt_of_lt_of_le hv ?_
  rw [totalExponent, zpow_add₀ two_ne_zero]
  apply mul_le_mul_of_nonneg_right _ (two_zpow_pos e).le
  exact_mod_cast Nat.lt_log2_self

theorem two_zpow_totalExponent_le (hM : 0 < M) (hv : (M : ℚ) * 2 ^ e ≤ v) :
    2 ^ (totalExponent M e - 1) ≤ v := by
  refine le_trans ?_ hv
  rw [totalExponent, add_right_comm, add_sub_cancel_right, zpow_add₀ two_ne_zero]
  apply mul_le_mul_of_nonneg_right _ (two_zpow_pos e).le
  exact_mod_cast Nat.log2_self_le hM.ne'

theorem targetExponent_eq (e : ℤ) : Format.binary64.targetExponent e = max (e - 53) (-1074) := rfl

theorem Nearest.lt_two_zpow (h : Nearest v m q) (hc : Canonical m q) : v < 2 ^ (q + 53) := by
  refine lt_of_le_of_lt h.upper ?_
  rw [add_comm q, zpow_add₀ two_ne_zero]
  apply mul_lt_mul_of_pos_right _ (two_zpow_pos q)
  have hm : (m : ℚ) + 1 ≤ 2 ^ 53 := by exact_mod_cast hc.small
  rw [zpow_ofNat]
  linarith

theorem Nearest.two_zpow_lt (h : Nearest v m q) (hf : 2 ^ 52 ≤ m) : 2 ^ (q + 51) < v := by
  refine lt_of_lt_of_le ?_ h.half
  rw [add_comm q, zpow_add₀ two_ne_zero]
  apply mul_lt_mul_of_pos_right _ (two_zpow_pos q)
  have hm : (2 : ℚ) ^ 52 ≤ m := by exact_mod_cast hf
  rw [zpow_ofNat]
  linarith

/-- A value just below a power of two has its last bit one place lower. -/
theorem targetExponent_cases (hc : Canonical m q) (h : Nearest v m q)
    (lower : (M : ℚ) * 2 ^ e ≤ v) (upper : v < (M + 1 : ℕ) * 2 ^ e)
    (he : e ≤ Format.binary64.targetExponent (totalExponent M e)) :
    Format.binary64.targetExponent (totalExponent M e) = q ∨
      Format.binary64.targetExponent (totalExponent M e) = q - 1 ∧ m = 2 ^ 52 ∧
        q ≠ -1074 ∧ v < 2 ^ (q + 52) := by
  have hq := hc.least
  have hT := lt_two_zpow_totalExponent upper
  rw [targetExponent_eq] at he ⊢
  by_cases hM : M = 0
  · subst hM
    have hT0 : totalExponent 0 e = e + 1 := by
      change ((0 : ℕ) : ℤ) + 1 + e = e + 1
      omega
    rw [hT0] at he hT ⊢
    obtain hf | rfl := hc.full
    · have hlt := two_zpow_lt.mp ((h.two_zpow_lt hf).trans hT)
      omega
    · omega
  · have hle := two_zpow_totalExponent_le (Nat.pos_of_ne_zero hM) lower
    have htop := two_zpow_lt.mp (hle.trans_lt (h.lt_two_zpow hc))
    by_cases hf : 2 ^ 52 ≤ m
    · have hbottom := two_zpow_lt.mp ((h.two_zpow_lt hf).trans hT)
      by_cases hlast : totalExponent M e = q + 53
      · omega
      · have hval : totalExponent M e = q + 52 := by omega
        rw [hval] at hT
        have hm : m ≤ 2 ^ 52 := by
          have hlt := h.half.trans_lt hT
          rw [add_comm q, zpow_add₀ two_ne_zero] at hlt
          have h1 := lt_of_mul_lt_mul_right hlt (two_zpow_pos q).le
          have h2 : (m : ℚ) < (2 ^ 52 + 1 : ℕ) := by
            rw [zpow_ofNat] at h1
            push_cast
            linarith
          have h3 : m < 2 ^ 52 + 1 := by exact_mod_cast h2
          omega
        by_cases hq4 : q = -1074
        · omega
        · exact .inr ⟨by omega, by omega, hq4, hT⟩
    · have := hc.full.resolve_left hf
      omega

theorem targetExponent_canonical (hc : Canonical m q) :
    Format.binary64.targetExponent (totalExponent m q) = q := by
  have hq := hc.least
  rw [targetExponent_eq, totalExponent]
  obtain hf | rfl := hc.full
  · rw [log2_of_full hc.small hf]
    omega
  · by_cases hf : 2 ^ 52 ≤ m
    · rw [log2_of_full hc.small hf]
      omega
    · have := log2_lt_of_not_full hc.pos (by omega)
      omega

theorem shiftToTargetExponent_canonical (hc : Canonical m q) :
    shiftToTargetExponent Format.binary64 m q .exact = (⟨m, false, false⟩, q) := by
  rw [shiftToTargetExponent, targetExponent_canonical hc, shiftToExponent]
  simp only [sub_self, Int.toNat_zero, Nat.cast_zero, add_zero]
  rfl

theorem shiftToTargetExponent_overflow (hq : -1074 < q) :
    shiftToTargetExponent Format.binary64 (2 ^ 53) (q - 1) .exact =
      (⟨2 ^ 52, false, false⟩, q) := by
  have ht : Format.binary64.targetExponent (totalExponent (2 ^ 53) (q - 1)) = q := by
    rw [targetExponent_eq, totalExponent, Nat.log2_two_pow]
    omega
  rw [shiftToTargetExponent, ht, shiftToExponent, sub_sub_cancel]
  simp only [Int.toNat_one, Nat.cast_one, sub_add_cancel]
  rfl

theorem mantissa_ofMantissaAndAccuracy (M : ℕ) (accuracy : Accuracy) :
    (ExtendedMantissa.ofMantissaAndAccuracy M accuracy).mantissa = M := by
  obtain _ | _ | _ | _ := accuracy <;> rfl

theorem exists_shiftToTargetExponent {accuracy : Accuracy} {t : ℤ}
    (hb : Brackets (.ofMantissaAndAccuracy M accuracy) r) (hv : v = r * 2 ^ e)
    (ht : Format.binary64.targetExponent (totalExponent M e) = t) (he : e ≤ t) :
    ∃ em, shiftToTargetExponent Format.binary64 M e accuracy = (em, t) ∧
      Brackets em (v / 2 ^ t) := by
  have hshift : e + ((t - e).toNat : ℤ) = t := by omega
  have hr : r / 2 ^ (t - e).toNat = v / 2 ^ t := by
    rw [hv, div_eq_div_iff (by positivity) (two_zpow_pos t).ne', mul_assoc, ← zpow_natCast,
      ← zpow_add₀ two_ne_zero, hshift]
  refine ⟨_, ?_, hr ▸ hb.shiftRight (t - e).toNat⟩
  rw [shiftToTargetExponent, ht, shiftToExponent, hshift]

theorem roundWithAccuracy_of_shifts {s : Sign} {accuracy : Accuracy} {em : ExtendedMantissa}
    {t : ℤ} (h1 : shiftToTargetExponent Format.binary64 M e accuracy = (em, t))
    (h2 : shiftToTargetExponent Format.binary64 em.roundedMantissa t .exact =
      (⟨m, false, false⟩, q)) (hm : 0 < m) :
    roundWithAccuracy Format.binary64 s M e accuracy = .finite s m q hm := by
  rw [roundWithAccuracy]
  simp only [h1, h2]
  exact dif_neg hm.ne'

/-- Rounding gives the nearest number. -/
theorem roundWithAccuracy_eq {s : Sign} {accuracy : Accuracy} (hc : Canonical m q)
    (h : Nearest v m q) (hb : Brackets (.ofMantissaAndAccuracy M accuracy) r) (hv : v = r * 2 ^ e)
    (he : e ≤ Format.binary64.targetExponent (totalExponent M e)) :
    roundWithAccuracy Format.binary64 s M e accuracy = .finite s m q hc.pos := by
  obtain ⟨hlo, hhi⟩ := hb.floor
  rw [mantissa_ofMantissaAndAccuracy] at hlo hhi
  have htarget := targetExponent_cases hc h
    (hv ▸ mul_le_mul_of_nonneg_right hlo (two_zpow_pos e).le)
    (hv ▸ mul_lt_mul_of_pos_right (by exact_mod_cast hhi) (two_zpow_pos e)) he
  obtain ⟨em, hem, hbm⟩ := exists_shiftToTargetExponent hb hv rfl he
  obtain ht | ⟨ht, rfl, hq, hlt⟩ := htarget
  · rw [ht] at hem hbm
    have hm : em.roundedMantissa = m :=
      hbm.roundedMantissa_eq ((le_div_iff₀ (two_zpow_pos q)).mpr h.half)
        ((div_le_iff₀ (two_zpow_pos q)).mpr h.upper) fun hodd =>
          ⟨(lt_div_iff₀ (two_zpow_pos q)).mpr (h.tie hodd).1,
            (div_lt_iff₀ (two_zpow_pos q)).mpr (h.tie hodd).2⟩
    refine roundWithAccuracy_of_shifts hem ?_ hc.pos
    rw [hm, shiftToTargetExponent_canonical hc]
  · rw [ht] at hem hbm
    have hlow := h.two_mul_le rfl hq
    have hhigh : v / 2 ^ (q - 1) < 2 ^ 53 := by
      rw [div_lt_iff₀ (two_zpow_pos _), ← zpow_natCast, ← zpow_add₀ two_ne_zero]
      rwa [show ((53 : ℕ) : ℤ) + (q - 1) = q + 52 by omega]
    have hm : em.roundedMantissa = 2 ^ 53 :=
      hbm.roundedMantissa_eq (by push_cast at hlow ⊢; linarith) (by push_cast; linarith)
        fun hodd => absurd hodd (by decide)
    refine roundWithAccuracy_of_shifts hem ?_ hc.pos
    rw [hm, shiftToTargetExponent_overflow (lt_of_le_of_ne hc.least hq.symm)]

end

end FormulaShell.Number
