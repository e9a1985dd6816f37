import FormulaShell.Number.Text
import FormulaShell.Proofs.Number.Shortest
import FormulaShell.Proofs.Text.Word

namespace FormulaShell.Number

open FormulaShell.Text

structure Numeral where
  whole : List Char
  fraction : List Char
  nonempty : whole ≠ []
  digits : ∀ c ∈ whole ++ fraction, isAsciiDigit c = true

namespace Numeral

variable (n : Numeral)

def tail : List Char → List Char
  | [] => []
  | d :: fraction => '.' :: d :: fraction

def chars : List Char := n.whole ++ tail n.fraction

def value : ℚ := digitsValue (n.whole ++ n.fraction) / 10 ^ n.fraction.length

theorem tail_of_ne_nil {fraction : List Char} (h : fraction ≠ []) :
    tail fraction = '.' :: fraction := by
  cases fraction with
  | nil => exact absurd rfl h
  | cons d fraction => rfl

theorem whole_digits : ∀ c ∈ n.whole, isAsciiDigit c = true :=
  fun c hc => n.digits c (List.mem_append_left _ hc)

theorem fraction_digits : ∀ c ∈ n.fraction, isAsciiDigit c = true :=
  fun c hc => n.digits c (List.mem_append_right _ hc)

theorem isAsciiDigit_or_eq_of_mem_chars {c : Char} (h : c ∈ n.chars) :
    isAsciiDigit c = true ∨ c = '.' := by
  obtain hw | ht := List.mem_append.mp h
  · exact .inl (n.whole_digits c hw)
  · have hfraction := n.fraction_digits
    cases hf : n.fraction with
    | nil =>
      rw [hf] at ht
      cases ht
    | cons d ds =>
      rw [hf] at ht hfraction
      obtain rfl | hd := List.mem_cons.mp ht
      · exact .inr rfl
      · exact .inl (hfraction c hd)

theorem exists_chars : ∃ d rest, n.chars = d :: rest ∧ isAsciiDigit d = true := by
  obtain ⟨d, rest, h⟩ := List.exists_cons_of_ne_nil n.nonempty
  refine ⟨d, rest ++ tail n.fraction, by rw [chars, h, List.cons_append], n.whole_digits d ?_⟩
  rw [h]
  exact List.mem_cons_self

theorem readUnsigned?_chars :
    readUnsigned? n.chars =
      some (ofDecimal (digitsValue (n.whole ++ n.fraction)) (-n.fraction.length)) := by
  have htail : ∀ d ∈ (tail n.fraction).head?, isAsciiDigit d = false := by
    cases n.fraction with
    | nil => simp [tail]
    | cons d fraction => simp [tail, isAsciiDigit]
  have h1 : n.chars.takeWhile isAsciiDigit = n.whole := by
    rw [chars, takeWhile_append_of_head n.whole_digits htail]
  have h2 : n.chars.dropWhile isAsciiDigit = tail n.fraction := by
    rw [chars, dropWhile_append_of_head n.whole_digits htail]
  rw [readUnsigned?]
  by_cases hf : n.fraction = []
  · simp [h1, h2, hf, tail, n.nonempty, readExponent?]
  · have h3 := List.takeWhile_eq_self_iff.mpr n.fraction_digits
    have h4 := List.dropWhile_eq_nil_iff.mpr n.fraction_digits
    simp [h1, h2, h3, h4, tail_of_ne_nil hf, n.nonempty, readExponent?]

end Numeral

theorem digitsValue_eq (ds : List Char) : digitsValue ds = Nat.ofDigitChars 10 ds 0 :=
  Nat.ofDigitChars_eq_foldl.symm

theorem digitsValue_toDigits (n : ℕ) : digitsValue (Nat.toDigits 10 n) = n := by
  rw [digitsValue_eq, Nat.ofDigitChars_ten_toDigits]

theorem digitsValue_append_zeros (ds : List Char) (k : ℕ) :
    digitsValue (ds ++ zeros k) = digitsValue ds * 10 ^ k := by
  rw [digitsValue_eq, digitsValue_eq, Nat.ofDigitChars_append, zeros,
    Nat.ofDigitChars_replicate_zero, Nat.mul_comm]

theorem digitsValue_zeros_append (ds : List Char) (k : ℕ) :
    digitsValue (zeros k ++ ds) = digitsValue ds := by
  rw [digitsValue_eq, digitsValue_eq, Nat.ofDigitChars_append, zeros,
    Nat.ofDigitChars_replicate_zero, Nat.mul_zero]

theorem isAsciiDigit_of_mem_toDigits {n : ℕ} : ∀ c ∈ Nat.toDigits 10 n, isAsciiDigit c = true := by
  intro c hc
  have h := Nat.isDigit_of_mem_toDigits (by decide) (by decide) hc
  simpa [Char.isDigit, isAsciiDigit, UInt32.le_iff_toNat_le] using h

theorem isAsciiDigit_of_mem_zeros {k : ℕ} : ∀ c ∈ zeros k, isAsciiDigit c = true := by
  intro c hc
  rw [List.eq_of_mem_replicate hc]
  rfl

theorem exists_numeral (d : Digits) :
    ∃ n : Numeral, (positional d).toList = n.chars ∧ n.value = d.value := by
  obtain ⟨units, exponent⟩ := d
  cases exponent with
  | ofNat k =>
    have hdigits : ∀ c ∈ Nat.toDigits 10 units ++ zeros k ++ [], isAsciiDigit c = true := by
      intro c hc
      rw [List.append_nil] at hc
      obtain hc | hc := List.mem_append.mp hc
      · exact isAsciiDigit_of_mem_toDigits c hc
      · exact isAsciiDigit_of_mem_zeros c hc
    refine ⟨⟨_, [], by simp [Nat.toDigits_ne_nil], hdigits⟩, ?_, ?_⟩
    · simp [positional, Numeral.chars, Numeral.tail]
    · rw [Numeral.value, List.append_nil, digitsValue_append_zeros, digitsValue_toDigits,
        Digits.value]
      simp
  | negSucc k =>
    generalize hp : zeros (k + 1 + 1 - (Nat.toDigits 10 units).length) ++ Nat.toDigits 10 units =
      padded
    have hlen : k + 1 < padded.length := by
      rw [← hp, List.length_append, zeros, List.length_replicate]
      omega
    have hfraction : (padded.drop (padded.length - (k + 1))).length = k + 1 := by
      rw [List.length_drop]
      omega
    have hwhole : padded.take (padded.length - (k + 1)) ≠ [] := by
      apply List.ne_nil_of_length_pos
      rw [List.length_take]
      omega
    have hdigits : ∀ c ∈ padded.take (padded.length - (k + 1)) ++
        padded.drop (padded.length - (k + 1)), isAsciiDigit c = true := by
      intro c hc
      rw [List.take_append_drop, ← hp] at hc
      obtain hc | hc := List.mem_append.mp hc
      · exact isAsciiDigit_of_mem_zeros c hc
      · exact isAsciiDigit_of_mem_toDigits c hc
    refine ⟨⟨_, _, hwhole, hdigits⟩, ?_, ?_⟩
    · have hne : padded.drop (padded.length - (k + 1)) ≠ [] := by
        apply List.ne_nil_of_length_pos
        rw [hfraction]
        exact Nat.succ_pos k
      rw [Numeral.chars, Numeral.tail_of_ne_nil hne]
      simp only [positional, hp, String.toList_ofList]
    · rw [Numeral.value, List.take_append_drop, hfraction, ← hp, digitsValue_zeros_append,
        digitsValue_toDigits, Digits.value, zpow_negSucc, div_eq_mul_inv]

theorem Numeral.readUnsigned?_eq {n : Numeral} {m : ℕ} {q : ℤ} (hc : Canonical m q)
    (h : Nearest n.value m q) : readUnsigned? n.chars = some (ofParts false m q hc.pos) := by
  have hpos : 0 < digitsValue (n.whole ++ n.fraction) := by
    by_contra h0
    have hle := h.two_zpow_le hc
    rw [value, Nat.eq_zero_of_not_pos h0, Nat.cast_zero, zero_div] at hle
    exact absurd hle (not_le.mpr (two_zpow_pos _))
  rw [readUnsigned?_chars, ofDecimal_eq hpos hc h]

def zeroNumeral : Numeral := ⟨['0'], [], by decide, by simp [isAsciiDigit]⟩

def signChars (negative : Bool) : List Char := if negative then ['-'] else []

section

variable {x : Float} {negative : Bool} {m : ℕ} {q : ℤ}

theorem text_of_zero (h : parts x = .finite negative 0 q) : text x = "0" := by
  simp only [text, write, h]
  cases negative <;> rfl

theorem exists_text_of_parts (h : parts x = .finite negative m q) (hm : 0 < m) :
    ∃ n : Numeral, (text x).toList = signChars negative ++ n.chars ∧
      readUnsigned? n.chars = some (ofParts false m q hm) := by
  have hc := canonical_of_parts h hm
  obtain ⟨n, hn, hv⟩ := exists_numeral (shortest .up m q)
  have hnear := shortest_holds .up hc.small hc.pos hc.least
  refine ⟨n, ?_, Numeral.readUnsigned?_eq hc (hv ▸ hnear)⟩
  obtain ⟨k, rfl⟩ : ∃ k, m = k + 1 := ⟨m - 1, by omega⟩
  simp only [text, write, h, String.toList_append, hn]
  cases negative <;> rfl

end

/-- The text of a finite number is a numeral, perhaps after a minus sign, and the numeral reads
back as the number without its sign. -/
theorem exists_text {x : Float} (h : isFinite x = true) :
    ∃ (negative : Bool) (n : Numeral) (y : Float),
      (text x).toList = signChars negative ++ n.chars ∧
      readUnsigned? n.chars = some y ∧ (signed negative y == x) = true := by
  obtain ⟨negative, m, q, hp⟩ := exists_parts_of_isFinite h
  obtain rfl | hm := Nat.eq_zero_or_pos m
  · refine ⟨false, zeroNumeral, 0.0, ?_, by decide +kernel, zero_beq_of_parts hp⟩
    rw [text_of_zero hp]
    rfl
  · have hc := canonical_of_parts hp hm
    obtain ⟨n, htext, hread⟩ := exists_text_of_parts hp hm
    refine ⟨negative, n, _, htext, hread, ?_⟩
    rw [eq_ofParts hp hm]
    cases negative with
    | false => exact beq_self_ofParts hc
    | true =>
      rw [signed, if_pos rfl, neg_ofParts hc]
      exact beq_self_ofParts hc

theorem signChars_append_inj {a b : Bool} {m n : Numeral}
    (h : signChars a ++ m.chars = signChars b ++ n.chars) : a = b ∧ m.chars = n.chars := by
  have hsign (k : Numeral) (rest : List Char) : k.chars ≠ '-' :: rest := by
    obtain ⟨d, ds, hk, hd⟩ := k.exists_chars
    rw [hk]
    rintro ⟨⟩
    revert hd
    decide
  cases a <;> cases b
  · exact ⟨rfl, h⟩
  · exact absurd h (hsign m _)
  · exact absurd h.symm (hsign n _)
  · exact ⟨rfl, List.cons.inj h |>.2⟩

theorem text_ne_zero {x : Float} {negative : Bool} {m : ℕ} {q : ℤ}
    (h : parts x = .finite negative m q) (hm : 0 < m) : text x ≠ "0" := by
  intro htext
  obtain ⟨n, hn, hread⟩ := exists_text_of_parts h hm
  rw [htext] at hn
  have hchars : zeroNumeral.chars = n.chars :=
    (signChars_append_inj (a := false) (m := zeroNumeral) hn).2
  have hzero : readUnsigned? zeroNumeral.chars = some 0.0 := by decide +kernel
  rw [← hchars, hzero, Option.some.injEq] at hread
  have hc := canonical_of_parts h hm
  have hbits : (ofParts false m q hm).toBits.toNat = _ := toNat_toBits_ofParts hc
  have hfull := hc.full
  rw [← hread, show (0.0 : Float).toBits.toNat = 0 by decide +kernel] at hbits
  by_cases hlarge : 2 ^ 52 ≤ m
  · rw [if_pos hlarge] at hbits
    have := hc.least
    omega
  · rw [Nat.mod_eq_of_lt (not_le.mp hlarge)] at hbits
    omega

theorem beq_of_text_eq {x y : Float} (hx : isFinite x = true) (hy : isFinite y = true)
    (h : text x = text y) : (x == y) = true := by
  obtain ⟨a, m, p, hxp⟩ := exists_parts_of_isFinite hx
  obtain ⟨b, n, q, hyp⟩ := exists_parts_of_isFinite hy
  obtain rfl | hm := Nat.eq_zero_or_pos m <;> obtain rfl | hn := Nat.eq_zero_or_pos n
  · exact beq_of_zeros hxp hyp
  · exact absurd (h.symm.trans (text_of_zero hxp)) (text_ne_zero hyp hn)
  · exact absurd (h.trans (text_of_zero hyp)) (text_ne_zero hxp hm)
  · obtain ⟨j, hj, hjx⟩ := exists_text_of_parts hxp hm
    obtain ⟨k, hk, hky⟩ := exists_text_of_parts hyp hn
    obtain ⟨rfl, hchars⟩ := signChars_append_inj (hj.symm.trans ((congrArg _ h).trans hk))
    have hparts : ofParts false m p hm = ofParts false n q hn :=
      Option.some.inj (hjx.symm.trans ((congrArg _ hchars).trans hky))
    have hxy : ofParts a m p hm = ofParts a n q hn := by
      cases a with
      | false => exact hparts
      | true =>
        rw [← neg_ofParts (canonical_of_parts hxp hm), hparts,
          neg_ofParts (canonical_of_parts hyp hn)]
    rw [eq_ofParts hxp hm, eq_ofParts hyp hn, ← hxy]
    exact beq_self_ofParts (canonical_of_parts hxp hm)

end FormulaShell.Number
