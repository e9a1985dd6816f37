import FormulaShell.Number.Shortest
import FormulaShell.Proofs.Number.Reading

namespace FormulaShell.Number

namespace Digits

def value (d : Digits) : ℚ := d.units * 10 ^ d.exponent

theorem strip_value (fuel : ℕ) (d : Digits) : (d.strip fuel).value = d.value := by
  induction fuel generalizing d with
  | zero => rfl
  | succ fuel ih =>
    rw [strip]
    split
    · next h =>
      have hunits : (d.units : ℚ) = 10 * (d.units / 10 : ℕ) := by
        exact_mod_cast (Nat.mul_div_cancel' (Nat.dvd_of_mod_eq_zero h.2)).symm
      rw [ih, value, value, hunits, zpow_add_one₀ (by decide)]
      ring
    · rfl

end Digits

theorem cast_tenTo_toNat (k : ℤ) : (tenTo k.toNat : ℚ) = 10 ^ k * tenTo (-k).toNat := by
  have hcast (n : ℕ) : (tenTo n : ℚ) = 10 ^ (n : ℤ) := by
    rw [zpow_natCast]
    exact_mod_cast rfl
  rw [hcast, hcast, ← zpow_add₀ (by decide)]
  congr 1
  omega

theorem cast_twoTo_toNat (k : ℤ) : (twoTo k.toNat : ℚ) = 2 ^ k * twoTo (-k).toNat := by
  have hcast (n : ℕ) : (twoTo n : ℚ) = 2 ^ (n : ℤ) := by
    rw [zpow_natCast]
    exact_mod_cast rfl
  rw [hcast, hcast, ← zpow_add₀ (by decide)]
  congr 1
  omega

theorem tenTo_pos (n : ℕ) : 0 < tenTo n := Nat.pow_pos (by decide)

theorem twoTo_pos (n : ℕ) : 0 < twoTo n := Nat.pow_pos (by decide)

section

variable {m d : ℕ} {q k : ℤ}

def unit (q k : ℤ) : ℚ := tenTo (-k).toNat * twoTo (2 - q).toNat

theorem unit_pos (q k : ℤ) : 0 < unit q k :=
  mul_pos (by exact_mod_cast tenTo_pos _) (by exact_mod_cast twoTo_pos _)

theorem cast_bound (n : ℕ) (q k : ℤ) :
    ((n * twoTo (q - 2).toNat * tenTo (-k).toNat : ℕ) : ℚ) = n * 2 ^ (q - 2) * unit q k := by
  rw [Nat.cast_mul, Nat.cast_mul, cast_twoTo_toNat, neg_sub, unit]
  ring

theorem cast_value (d : ℕ) (q k : ℤ) :
    ((d * tenTo k.toNat * twoTo (2 - q).toNat : ℕ) : ℚ) = d * 10 ^ k * unit q k := by
  rw [Nat.cast_mul, Nat.cast_mul, cast_tenTo_toNat, unit]
  ring

theorem bound_le_value_iff {n : ℕ} :
    n * twoTo (q - 2).toNat * tenTo (-k).toNat ≤ d * tenTo k.toNat * twoTo (2 - q).toNat ↔
      (n : ℚ) * 2 ^ (q - 2) ≤ d * 10 ^ k := by
  rw [← @Nat.cast_le ℚ, cast_bound, cast_value, mul_le_mul_iff_left₀ (unit_pos q k)]

theorem value_le_bound_iff {n : ℕ} :
    d * tenTo k.toNat * twoTo (2 - q).toNat ≤ n * twoTo (q - 2).toNat * tenTo (-k).toNat ↔
      d * 10 ^ k ≤ (n : ℚ) * 2 ^ (q - 2) := by
  rw [← @Nat.cast_le ℚ, cast_bound, cast_value, mul_le_mul_iff_left₀ (unit_pos q k)]

def below (m : ℕ) (q : ℤ) : ℕ := if m = twoTo 52 ∧ q ≠ -1074 then 1 else 2

theorem below_eq (m : ℕ) (q : ℤ) :
    (below m q : ℚ) = 4 * if m = 2 ^ 52 ∧ q ≠ -1074 then 1 / 4 else 1 / 2 := by
  change _ = 4 * if m = twoTo 52 ∧ q ≠ -1074 then (1 : ℚ) / 4 else 1 / 2
  rw [below]
  split <;> norm_num

theorem below_bounds (m : ℕ) (q : ℤ) : 1 ≤ below m q ∧ below m q ≤ 2 := by
  rw [below]
  split <;> omega

theorem two_zpow_quarter (q : ℤ) : (2 : ℚ) ^ q = 4 * 2 ^ (q - 2) := by
  rw [zpow_sub₀ two_ne_zero]
  norm_num
  ring

theorem cast_low (hm : 0 < m) : ((4 * m - below m q : ℕ) : ℚ) = 4 * m - below m q := by
  have := (below_bounds m q).2
  rw [Nat.cast_sub (by omega), Nat.cast_mul, Nat.cast_ofNat]

theorem Interval.holds_closed {i : Interval} (h : i.closed = true) :
    i.holds d k = true ↔
      i.low * tenTo (-k).toNat ≤ d * tenTo k.toNat * i.scale ∧
        d * tenTo k.toNat * i.scale ≤ i.high * tenTo (-k).toNat := by
  rw [holds]
  simp only [h, if_true, Bool.and_eq_true, decide_eq_true_eq]

theorem Interval.holds_open {i : Interval} (h : i.closed = false) :
    i.holds d k = true ↔
      i.low * tenTo (-k).toNat < d * tenTo k.toNat * i.scale ∧
        d * tenTo k.toNat * i.scale < i.high * tenTo (-k).toNat := by
  rw [holds]
  simp only [h, Bool.false_eq_true, if_false, Bool.and_eq_true, decide_eq_true_eq]

theorem nearest_of_holds (hm : 0 < m) (h : (Interval.around m q).holds d k = true) :
    Nearest (d * 10 ^ k) m q := by
  have hlow : ((4 * m - below m q : ℕ) : ℚ) * 2 ^ (q - 2) =
      ((m : ℚ) - if m = 2 ^ 52 ∧ q ≠ -1074 then 1 / 4 else 1 / 2) * 2 ^ q := by
    rw [cast_low hm, below_eq, two_zpow_quarter q]
    ring
  have hhigh : ((4 * m + 2 : ℕ) : ℚ) * 2 ^ (q - 2) = ((m : ℚ) + 1 / 2) * 2 ^ q := by
    rw [two_zpow_quarter q]
    push_cast
    ring
  by_cases hodd : m % 2 = 1
  · obtain ⟨h1, h2⟩ := (Interval.holds_open (decide_eq_false (by omega))).mp h
    have hl := not_le.mp (mt value_le_bound_iff.mpr (Nat.not_le.mpr h1))
    have hu := not_le.mp (mt bound_le_value_iff.mpr (Nat.not_le.mpr h2))
    rw [show (4 * m - if m = twoTo 52 ∧ q ≠ -1074 then 1 else 2) = 4 * m - below m q from rfl,
      hlow] at hl
    rw [hhigh] at hu
    refine ⟨hl.le, hu.le, fun _ => ⟨?_, hu⟩⟩
    rw [if_neg] at hl
    · exact hl
    · rintro ⟨rfl, -⟩
      exact absurd hodd (by decide)
  · obtain ⟨h1, h2⟩ := (Interval.holds_closed (decide_eq_true (by omega))).mp h
    exact ⟨hlow ▸ bound_le_value_iff.mp h1, hhigh ▸ value_le_bound_iff.mp h2,
      fun h1 => absurd h1 hodd⟩

theorem Interval.holds_of_onGrid? {i : Interval} {t : Tie} {ds : Digits}
    (h : i.onGrid? t k = some ds) : i.holds ds.units ds.exponent = true := by
  simp only [onGrid?] at h
  generalize (if t.goesUp _ _ _ = true then _ + 1 else _) = near at h
  generalize (if t.goesUp _ _ _ = true then _ else _ + 1) = far at h
  by_cases hnear : i.holds near k = true
  · rw [if_pos hnear] at h
    cases h
    exact hnear
  · rw [if_neg hnear] at h
    by_cases hfar : i.holds far k = true
    · rw [if_pos hfar] at h
      cases h
      exact hfar
    · rw [if_neg hfar] at h
      cases h

theorem Tie.goesUp_bounds (t : Tie) {n step : ℕ} (h : 0 < step) :
    2 * ((if t.goesUp (n / step) (2 * (n % step)) step then n / step + 1 else n / step) * step) ≤
        2 * n + step ∧
      2 * n ≤
        2 * ((if t.goesUp (n / step) (2 * (n % step)) step then n / step + 1 else n / step) * step) +
          step := by
  have hn := Nat.div_add_mod' n step
  have hlt := Nat.mod_lt n h
  generalize n / step = w at hn ⊢
  generalize n % step = r at hn hlt ⊢
  by_cases hup : t.goesUp w (2 * r) step = true
  · have : step ≤ 2 * r := by
      simp only [goesUp, Bool.or_eq_true, Bool.and_eq_true, decide_eq_true_eq, beq_iff_eq] at hup
      omega
    rw [if_pos hup, Nat.add_mul, Nat.one_mul]
    omega
  · have : 2 * r ≤ step := by
      simp only [goesUp, Bool.or_eq_true, decide_eq_true_eq, not_or] at hup
      omega
    rw [if_neg hup]
    omega

theorem step_lt_two_mul_below {x step : ℕ} (hm : m < 2 ^ 53) (hx : 0 < x)
    (h : 10 ^ 16 * step ≤ 4 * m * x) : step < 2 * (below m q * x) := by
  rw [below]
  split
  · next hp =>
    rw [hp.1, show twoTo 52 = 2 ^ 52 from rfl] at h
    omega
  · have hmx : m * x ≤ (2 ^ 53 - 1) * x := Nat.mul_le_mul_right x (by omega)
    rw [Nat.mul_assoc] at h
    omega

theorem around_holds (hm : m < 2 ^ 53) (hpos : 0 < m)
    (hfine : 10 ^ 16 * ((Interval.around m q).scale * tenTo k.toNat) ≤
      (Interval.around m q).mid * tenTo (-k).toNat)
    (h1 : 2 * (d * ((Interval.around m q).scale * tenTo k.toNat)) ≤
      2 * ((Interval.around m q).mid * tenTo (-k).toNat) +
        (Interval.around m q).scale * tenTo k.toNat)
    (h2 : 2 * ((Interval.around m q).mid * tenTo (-k).toNat) ≤
      2 * (d * ((Interval.around m q).scale * tenTo k.toNat)) +
        (Interval.around m q).scale * tenTo k.toNat) :
    (Interval.around m q).holds d k = true := by
  have hmid : (Interval.around m q).mid * tenTo (-k).toNat =
      4 * m * (twoTo (q - 2).toNat * tenTo (-k).toNat) := Nat.mul_assoc ..
  have hval : d * tenTo k.toNat * (Interval.around m q).scale =
      d * ((Interval.around m q).scale * tenTo k.toNat) := by
    rw [Nat.mul_assoc, Nat.mul_comm (tenTo _)]
  have hx : 0 < twoTo (q - 2).toNat * tenTo (-k).toNat := Nat.mul_pos (twoTo_pos _) (tenTo_pos _)
  rw [hmid] at hfine h1 h2
  have hstep := @step_lt_two_mul_below m q _ _ hm hx hfine
  have hbelow := below_bounds m q
  have hlow : (Interval.around m q).low * tenTo (-k).toNat <
      d * tenTo k.toNat * (Interval.around m q).scale := by
    rw [hval]
    change (4 * m - below m q) * twoTo (q - 2).toNat * tenTo (-k).toNat < _
    rw [Nat.mul_assoc, Nat.sub_mul]
    have : below m q * (twoTo (q - 2).toNat * tenTo (-k).toNat) ≤
        4 * m * (twoTo (q - 2).toNat * tenTo (-k).toNat) := Nat.mul_le_mul_right _ (by omega)
    omega
  have hhigh : d * tenTo k.toNat * (Interval.around m q).scale <
      (Interval.around m q).high * tenTo (-k).toNat := by
    rw [hval]
    change _ < (4 * m + 2) * twoTo (q - 2).toNat * tenTo (-k).toNat
    rw [Nat.mul_assoc, Nat.add_mul]
    have : below m q * (twoTo (q - 2).toNat * tenTo (-k).toNat) ≤
        2 * (twoTo (q - 2).toNat * tenTo (-k).toNat) := Nat.mul_le_mul_right _ hbelow.2
    omega
  rcases hclosed : (Interval.around m q).closed
  · exact (Interval.holds_open hclosed).mpr ⟨hlow, hhigh⟩
  · exact (Interval.holds_closed hclosed).mpr ⟨hlow.le, hhigh.le⟩

theorem around_onGrid?_isSome {t : Tie} (hm : m < 2 ^ 53) (hpos : 0 < m)
    (hfine : 10 ^ 16 * ((Interval.around m q).scale * tenTo k.toNat) ≤
      (Interval.around m q).mid * tenTo (-k).toNat) :
    ((Interval.around m q).onGrid? t k).isSome = true := by
  have hstep : 0 < (Interval.around m q).scale * tenTo k.toNat :=
    Nat.mul_pos (twoTo_pos _) (tenTo_pos _)
  obtain ⟨h1, h2⟩ := t.goesUp_bounds (n := (Interval.around m q).mid * tenTo (-k).toNat) hstep
  have hholds : (Interval.around m q).holds
      (if t.goesUp ((Interval.around m q).mid * tenTo (-k).toNat /
          ((Interval.around m q).scale * tenTo k.toNat))
        (2 * ((Interval.around m q).mid * tenTo (-k).toNat %
          ((Interval.around m q).scale * tenTo k.toNat)))
        ((Interval.around m q).scale * tenTo k.toNat) then _ else _) k = true :=
    around_holds hm hpos hfine h1 h2
  simp only [Interval.onGrid?]
  rw [if_pos hholds]
  rfl

theorem le_mul_leadingZeros (n d fuel : ℕ) (h : d ≤ n * 10 ^ fuel) :
    d ≤ n * 10 ^ leadingZeros n d fuel := by
  induction fuel generalizing n with
  | zero => exact h
  | succ fuel ih =>
    rw [leadingZeros]
    split
    · rwa [Nat.pow_zero, Nat.mul_one]
    · rw [Nat.pow_succ', ← Nat.mul_assoc] at h ⊢
      exact ih _ h

theorem Interval.scale_mul_magnitude_le {i : Interval} (hs : 0 < i.scale)
    (h : i.scale ≤ i.mid * 10 ^ 330) :
    (i.scale : ℚ) * 10 ^ (i.magnitude - 1) ≤ i.mid := by
  rw [magnitude]
  split
  · next hle =>
    have hpos : 0 < (Nat.toDigits 10 (i.mid / i.scale)).length := Nat.length_toDigits_pos
    have hdigits := (length_toDigits_bounds (Nat.div_pos hle hs)).1
    have hmul := (Nat.le_div_iff_mul_le hs).mp hdigits
    rw [show ((Nat.toDigits 10 (i.mid / i.scale)).length : ℤ) - 1 =
      ((Nat.toDigits 10 (i.mid / i.scale)).length - 1 : ℕ) by omega, zpow_natCast, mul_comm]
    exact_mod_cast hmul
  · have hmul := le_mul_leadingZeros i.mid i.scale 330 h
    rw [show (1 : ℤ) - (leadingZeros i.mid i.scale 330 : ℕ) - 1 =
      -(leadingZeros i.mid i.scale 330 : ℕ) by omega, zpow_neg, zpow_natCast,
      mul_inv_le_iff₀ (by positivity)]
    exact_mod_cast hmul

theorem scale_around_le (hpos : 0 < m) (hq : -1074 ≤ q) :
    (Interval.around m q).scale ≤ (Interval.around m q).mid * 10 ^ 330 := by
  have hexponent : (2 - q).toNat ≤ 1076 := by omega
  have hscale : 2 ^ (2 - q).toNat ≤ 2 ^ 1076 := pow_le_pow_right₀ one_le_two hexponent
  have hmid : 1 ≤ (Interval.around m q).mid :=
    Nat.mul_pos (by omega) (twoTo_pos _)
  have hpow : 2 ^ 1076 ≤ 1 * 10 ^ 330 := by decide +kernel
  exact (hscale.trans hpow).trans (Nat.mul_le_mul_right _ hmid)

/-- Seventeen digits of a number are enough. -/
theorem exists_onGrid? (t : Tie) (hm : m < 2 ^ 53) (hpos : 0 < m) (hq : -1074 ≤ q) :
    ((Interval.around m q).onGrid? t
      ((Interval.around m q).magnitude - 1 - (16 : ℕ))).isSome = true := by
  apply around_onGrid?_isSome hm hpos
  have hmag := Interval.scale_mul_magnitude_le (twoTo_pos (2 - q).toNat) (scale_around_le hpos hq)
  generalize hk : (Interval.around m q).magnitude - 1 - (16 : ℕ) = k
  rw [show (Interval.around m q).magnitude - 1 = k + (16 : ℕ) by omega,
    zpow_add₀ (by decide), zpow_natCast] at hmag
  have hten : (0 : ℚ) ≤ tenTo (-k).toNat := Nat.cast_nonneg _
  have hmul := mul_le_mul_of_nonneg_right hmag hten
  rw [← @Nat.cast_le ℚ, Nat.cast_mul, Nat.cast_mul, Nat.cast_mul, cast_tenTo_toNat k]
  calc _ = ((Interval.around m q).scale : ℚ) * (10 ^ k * 10 ^ 16) * tenTo (-k).toNat := by
        push_cast
        ring
    _ ≤ _ := hmul

theorem shortest_holds (t : Tie) (hm : m < 2 ^ 53) (hpos : 0 < m) (hq : -1074 ≤ q) :
    Nearest (shortest t m q).value m q := by
  rw [shortest]
  split
  · next ds h =>
    obtain ⟨n, -, hn⟩ := List.exists_of_findSome?_eq_some h
    rw [Digits.strip_value]
    exact nearest_of_holds hpos (Interval.holds_of_onGrid? hn)
  · next h =>
    have := List.findSome?_eq_none_iff.mp h 16 (by decide)
    have hsome := exists_onGrid? t hm hpos hq
    rw [this] at hsome
    cases hsome

end

end FormulaShell.Number
