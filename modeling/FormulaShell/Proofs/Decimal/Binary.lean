import FormulaShell.Decimal.Binary
import FormulaShell.Proofs.Number.Magnitude

namespace FormulaShell

open FormulaShell.Number

theorem Number.AtMost.round {b : ℚ} {x : Float} (h : AtMost b x) (hb : 2 ^ (54 : ℤ) ≤ b) :
    AtMost b (Number.round x) := by
  obtain ⟨negative, m, q, hp⟩ := exists_parts_of_isFinite h.isFinite
  rw [Number.round, toWhole, hp]
  cases q with
  | ofNat k => exact h
  | negSucc k =>
    have hm : m < 2 ^ 53 := by
      obtain rfl | hm := Nat.eq_zero_or_pos m
      · positivity
      · exact (canonical_of_parts hp hm).small
    have hwhole : m / twoTo (k + 1) ≤ m := Nat.div_le_self ..
    refine ((atMost_ofNat (k := 54) ?_ (by decide) (by decide)).signed negative).mono hb
    have hround (b : Bool) : (if b then m / twoTo (k + 1) + 1 else m / twoTo (k + 1)) < 2 ^ 54 := by
      cases b
      · exact lt_of_le_of_lt hwhole (by omega)
      · exact lt_of_le_of_lt (Nat.succ_le_succ hwhole) (by omega)
    exact_mod_cast hround _

namespace Decimal

def isLarge (x : Float) : Bool :=
  match parts x with
  | .finite false m q => 2 ^ 52 ≤ m && decide (-52 ≤ q)
  | _ => false

theorem isLarge_power : ∀ s : Fin 29, isLarge (Float.ofNat (tenTo s)) = true := by
  decide +kernel

theorem atMost_div {b : ℚ} {k : ℤ} {x y : Float} (hx : AtMost b x)
    (hy : isLarge y = true) (h : Safe b k) : AtMost (2 ^ k) (x / y) := by
  unfold isLarge at hy
  split at hy
  next m q hp =>
    rw [Bool.and_eq_true, decide_eq_true_eq, decide_eq_true_eq] at hy
    have hm : 0 < m := by omega
    refine hx.div (canonical_of_parts hp hm) (eq_ofParts hp hm) ?_ h
    calc (1 : ℚ) = 2 ^ 52 * 2 ^ (-52 : ℤ) := by norm_num
      _ ≤ m * 2 ^ q := mul_le_mul (by exact_mod_cast hy.1) (zpow_le_zpow_right₀ one_le_two hy.2)
          (two_zpow_pos _).le (Nat.cast_nonneg m)
  next => cases hy

theorem atMost_toNumber (d : Decimal) : AtMost (2 ^ (196 : ℤ)) d.toNumber := by
  have hmantissa : d.mantissa < 2 ^ 96 := d.mantissa_lt
  have hofNat {n : ℕ} (hn : n < 2 ^ 96) : AtMost (2 ^ (96 : ℤ)) (Float.ofNat n) :=
    atMost_ofNat (by exact_mod_cast hn) (by decide) (by decide)
  have hlt {a b : ℤ} (h : a < b) : (2 : ℚ) ^ a < 2 ^ b := two_zpow_lt.mpr h
  rw [toNumber]
  split
  · exact ((hofNat hmantissa).signed _).mono (hlt (by decide)).le
  · have hlarge : isLarge (Float.ofNat (tenTo d.scale)) = true :=
      isLarge_power ⟨d.scale, by have := d.scale_le; omega⟩
    have hpower : AtMost (2 ^ (96 : ℤ)) (Float.ofNat (tenTo d.scale)) := by
      refine hofNat (lt_of_le_of_lt (Nat.pow_le_pow_right (by decide) d.scale_le) (by decide))
    have hwhole : AtMost (2 ^ (96 : ℤ)) (Float.ofNat (d.mantissa / tenTo d.scale)) :=
      hofNat ((Nat.div_le_self ..).trans_lt hmantissa)
    have hfraction : AtMost (2 ^ (97 : ℤ))
        (Float.ofNat (d.mantissa % tenTo d.scale) / Float.ofNat (tenTo d.scale)) :=
      atMost_div (hofNat ((Nat.mod_le ..).trans_lt hmantissa)) hlarge
        (safe_of_le le_rfl (hlt (by decide)) (by decide) (by decide))
    have hsum := hwhole.add hfraction (k := 98) (by positivity) (by positivity)
      (safe_of_le le_rfl (by norm_num) (by decide) (by decide))
    have hproduct := hsum.mul hpower (k := 195)
      (safe_of_le le_rfl (by norm_num) (by decide) (by decide))
    have hquotient : AtMost (2 ^ (196 : ℤ)) _ :=
      atMost_div (hproduct.round (hlt (by decide)).le) hlarge
        (safe_of_le le_rfl (hlt (by decide)) (by decide) (by decide))
    refine AtMost.signed ?_ _
    split
    · exact hwhole.mono (hlt (by decide)).le
    · exact hquotient

end Decimal

end FormulaShell
