import FormulaShell.Proofs.Formula.Lexes
import FormulaShell.Proofs.Number.Text

namespace FormulaShell.Formula

open FormulaShell.Text FormulaShell.Number

/-- The mark of an exponent and digits, which may have a sign. Or nothing. -/
inductive IsExponent : List Char → Prop where
  | absent : IsExponent []
  | present {c cs ds} : c = 'e' ∨ c = 'E' → ds ≠ [] → (∀ d ∈ ds, isAsciiDigit d = true) →
      cs = '+' :: ds ∨ cs = '-' :: ds ∨ cs = ds → IsExponent (c :: cs)

/-- The text of a number without a sign, whose point has digits on both sides. -/
def IsNumber (text : List Char) : Prop :=
  ∃ (n : Numeral) (exponent : List Char), IsExponent exponent ∧ text = n.chars ++ exponent

theorem take_digitCount (cs : List Char) :
    cs.take (digitCount cs) = cs.takeWhile isAsciiDigit :=
  (List.prefix_iff_eq_take.mp (List.takeWhile_prefix _)).symm

theorem exists_fraction (cs : List Char) : ∃ fraction : List Char,
    (∀ c ∈ fraction, isAsciiDigit c = true) ∧
      cs.take (fractionLength cs) = Numeral.tail fraction := by
  unfold fractionLength
  split
  next rest =>
    split
    next => exact ⟨[], by simp, rfl⟩
    next hd =>
      refine ⟨rest.takeWhile isAsciiDigit, fun c hc => List.mem_takeWhile_imp hc, ?_⟩
      have hne : rest.takeWhile isAsciiDigit ≠ [] := fun h => hd (by simp [digitCount, h])
      rw [List.take_succ_cons, take_digitCount, Numeral.tail_of_ne_nil hne]
  next => exact ⟨[], by simp, rfl⟩

theorem isExponent_take (cs : List Char) : IsExponent (cs.take (exponentLength cs)) := by
  unfold exponentLength
  split
  next => exact .absent
  next c rest =>
    split
    next hc =>
      extract_lets sign digits
      split
      next => exact .absent
      next hd =>
        have hne : (rest.drop sign).takeWhile isAsciiDigit ≠ [] :=
          fun h => hd (by simp [digits, digitCount, h])
        rw [Nat.add_assoc, Nat.add_comm, List.take_succ_cons, List.take_add,
          show (rest.drop sign).take digits = _ from take_digitCount _]
        refine .present hc hne (fun d hd => List.mem_takeWhile_imp hd) ?_
        simp only [sign]
        split
        next => exact .inl rfl
        next => exact .inr (.inl rfl)
        next => exact .inr (.inr rfl)
    next => exact .absent

theorem isNumber_of_numberLength {c : Char} {cs rest : List Char} (hc : isAsciiDigit c = true)
    (hn : numberLength (cs ++ rest) = cs.length) : IsNumber (c :: cs) := by
  have hcs : cs = (cs ++ rest).take (numberLength (cs ++ rest)) := by rw [hn, List.take_left]
  simp only [numberLength, List.take_add] at hcs
  obtain ⟨fraction, hfraction, hf⟩ := exists_fraction ((cs ++ rest).drop (digitCount (cs ++ rest)))
  rw [take_digitCount, hf] at hcs
  refine ⟨⟨c :: (cs ++ rest).takeWhile isAsciiDigit, fraction, List.cons_ne_nil _ _, ?_⟩, _,
    isExponent_take _, congrArg (c :: ·) hcs⟩
  intro d hd
  obtain hd | hd := List.mem_append.mp hd
  · obtain rfl | hd := List.mem_cons.mp hd
    · exact hc
    · exact List.mem_takeWhile_imp hd
  · exact hfraction d hd

theorem IsExponent.isSome_readExponent? {cs : List Char} (h : IsExponent cs) :
    (readExponent? cs).isSome := by
  cases h with
  | absent => rfl
  | @present c cs ds hc hne hdigits hcs =>
    have hmark : ¬ (c ≠ 'e' ∧ c ≠ 'E') := by tauto
    have hall : (ds.isEmpty || !ds.all isAsciiDigit) = false := by simpa [hne] using hdigits
    obtain rfl | rfl | rfl := hcs
    · simp [readExponent?, if_neg hmark, hall]
    · simp [readExponent?, if_neg hmark, hall]
    · obtain ⟨d, ds, rfl⟩ := List.exists_cons_of_ne_nil hne
      have hd := hdigits d List.mem_cons_self
      have hminus : d ≠ '-' := by
        rintro rfl
        exact absurd hd (by decide)
      have hplus : d ≠ '+' := by
        rintro rfl
        exact absurd hd (by decide)
      simpa [readExponent?, if_neg hmark, hminus, hplus] using hdigits

theorem IsExponent.head {cs : List Char} (h : IsExponent cs) :
    ∀ c ∈ cs.head?, isAsciiDigit c = false ∧ c ≠ '.' := by
  cases h with
  | absent => simp
  | present hc => obtain rfl | rfl := hc <;> simp [isAsciiDigit]

theorem isSome_readUnsigned? (n : Numeral) {exponent : List Char} (h : IsExponent exponent) :
    (readUnsigned? (n.chars ++ exponent)).isSome := by
  have hread := h.isSome_readExponent?
  have hdigit : ∀ c ∈ exponent.head?, isAsciiDigit c = false := fun c hc => (h.head c hc).1
  obtain ⟨whole, fraction, hne, hdigits⟩ := n
  have hwhole : ∀ c ∈ whole, isAsciiDigit c = true :=
    fun c hc => hdigits c (List.mem_append_left _ hc)
  have hfraction : ∀ c ∈ fraction, isAsciiDigit c = true :=
    fun c hc => hdigits c (List.mem_append_right _ hc)
  have hafter : ∀ c ∈ (Numeral.tail fraction ++ exponent).head?, isAsciiDigit c = false := by
    cases fraction with
    | nil => exact hdigit
    | cons d fraction =>
      rintro _ ⟨⟩
      decide
  simp only [readUnsigned?, Numeral.chars, List.append_assoc,
    takeWhile_append_of_head hwhole hafter, dropWhile_append_of_head hwhole hafter]
  cases fraction with
  | nil =>
    cases exponent with
    | nil => simp [Numeral.tail, hne, readExponent?]
    | cons c rest =>
      have hc : c ≠ '.' := (h.head c rfl).2
      simpa [Numeral.tail, hne, hc] using hread
  | cons d fraction =>
    have htake := takeWhile_append_of_head hfraction hdigit
    have hdrop := dropWhile_append_of_head hfraction hdigit
    rw [List.cons_append] at htake hdrop
    simpa [Numeral.tail, hne, htake, hdrop] using hread

theorem IsNumber.isSome_read? {s : String} (h : IsNumber s.toList) : (Number.read? s).isSome := by
  obtain ⟨n, exponent, hexponent, hs⟩ := h
  obtain ⟨d, rest, hchars, hd⟩ := n.exists_chars
  have hminus : d ≠ '-' := by
    rintro rfl
    exact absurd hd (by decide)
  have hplus : d ≠ '+' := by
    rintro rfl
    exact absurd hd (by decide)
  obtain ⟨x, hx⟩ := Option.isSome_iff_exists.mp (isSome_readUnsigned? n hexponent)
  rw [hchars, List.cons_append] at hs hx
  simp [Number.read?, hs, hminus, hplus, readSigned?, hx]

theorem wordKind_ne (s : String) : wordKind s ≠ .number ∧ wordKind s ≠ .eof := by
  unfold wordKind
  split_ifs <;> decide

theorem pairSymbol?_ne_some (c d : Char) :
    pairSymbol? c d ≠ some .number ∧ pairSymbol? c d ≠ some .eof := by
  unfold pairSymbol?
  split_ifs <;> decide

theorem symbol?_ne_some (c : Char) : symbol? c ≠ some .number ∧ symbol? c ≠ some .eof := by
  unfold symbol?
  split <;> decide

theorem kind_of_reads {text rest : List Char} {kind : TokenKind} {value : String}
    (h : Reads text rest (some (kind, value))) :
    kind ≠ .eof ∧ (kind = .number → IsNumber value.toList) := by
  generalize htoken : some (kind, value) = token at h
  cases h with
  | blank | lineComment | blockComment => cases htoken
  | string | quotedName =>
    cases htoken
    exact ⟨by decide, nofun⟩
  | @pair c d _ _ hk =>
    cases htoken
    obtain ⟨hnumber, heof⟩ := pairSymbol?_ne_some c d
    exact ⟨fun h => heof (h ▸ hk), fun h => absurd (h ▸ hk) hnumber⟩
  | @symbol c _ _ hk =>
    cases htoken
    obtain ⟨hnumber, heof⟩ := symbol?_ne_some c
    exact ⟨fun h => heof (h ▸ hk), fun h => absurd (h ▸ hk) hnumber⟩
  | number hc hn =>
    cases htoken
    rw [String.toList_ofList]
    exact ⟨by decide, fun _ => isNumber_of_numberLength hc hn⟩
  | word =>
    cases htoken
    obtain ⟨hnumber, heof⟩ := wordKind_ne _
    exact ⟨heof, fun h => absurd h hnumber⟩

theorem Lexes.kind {p q : Position} {cs rest : List Char} {ts : List Token}
    (h : Lexes p cs ts q rest) :
    ∀ t ∈ ts, t.kind ≠ .eof ∧ (t.kind = .number → IsNumber t.value.toList) := by
  induction h with
  | done => simp
  | skip _ _ ih => exact ih
  | token hr _ _ ih =>
    intro t ht
    obtain rfl | ht := List.mem_cons.mp ht
    · exact kind_of_reads hr
    · exact ih t ht

theorem Lexes.isSome_read? {p q : Position} {cs rest : List Char} {ts : List Token}
    (h : Lexes p cs ts q rest) : ∀ t ∈ ts, t.kind = .number → (Number.read? t.value).isSome :=
  fun t ht hk => ((h.kind t ht).2 hk).isSome_read?

end FormulaShell.Formula
