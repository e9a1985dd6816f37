import FormulaShell.Proofs.Formula.Lexes

namespace FormulaShell.Formula

open FormulaShell.Text

def firstLine (cs : List Char) : List Char := cs.takeWhile (· != '\n')

theorem firstLine_append_break (u v : List Char) : firstLine (u ++ '\n' :: v) = firstLine u := by
  induction u with
  | nil => rfl
  | cons c u ih =>
    by_cases hc : c = '\n'
    · simp [firstLine, hc]
    · simpa [firstLine, hc] using ih

theorem eq_firstLine_or_break (cs : List Char) :
    cs = firstLine cs ∨ ∃ v, cs = firstLine cs ++ '\n' :: v := by
  have hsplit : firstLine cs ++ cs.dropWhile (· != '\n') = cs := List.takeWhile_append_dropWhile
  cases hd : cs.dropWhile (· != '\n') with
  | nil => exact .inl (by simpa [hd] using hsplit.symm)
  | cons d v =>
    have hn : (d != '\n') = false := head?_dropWhile (p := (· != '\n')) d (by rw [hd]; rfl)
    obtain rfl : d = '\n' := by simpa using hn
    exact .inr ⟨v, by rw [← hd, hsplit]⟩

section

variable {c : Char} (hc : isNumberChar c = false) (u v : List Char)
include hc

theorem digitCount_append_cons : digitCount (u ++ c :: v) = digitCount u := by
  induction u with
  | nil =>
    have hd : isAsciiDigit c = false := by
      simp only [isNumberChar, Bool.or_eq_false_iff] at hc
      exact hc.1.1.1.1.1
    simp [digitCount, hd]
  | cons d u ih =>
    cases hd : isAsciiDigit d with
    | false => simp [digitCount, hd]
    | true => simpa [digitCount, hd] using ih

theorem fractionLength_append_cons : fractionLength (u ++ c :: v) = fractionLength u := by
  cases u with
  | nil =>
    have hp : c ≠ '.' := by
      rintro rfl
      exact absurd hc (by decide)
    simp [fractionLength, hp]
  | cons d u =>
    by_cases hd : d = '.'
    · subst hd
      simp [fractionLength, digitCount_append_cons hc]
    · simp [fractionLength, hd]

theorem exponentLength_append_cons : exponentLength (u ++ c :: v) = exponentLength u := by
  have hne (d : Char) (hd : isNumberChar d) : c ≠ d := by
    rintro rfl
    rw [hc] at hd
    cases hd
  cases u with
  | nil => simp [exponentLength, hne 'e' (by decide), hne 'E' (by decide)]
  | cons d u =>
    by_cases hd : d = 'e' ∨ d = 'E'
    · simp only [List.cons_append, exponentLength, if_pos hd]
      cases u with
      | nil =>
        have hz := digitCount_append_cons hc [] v
        rw [List.nil_append] at hz
        simp [hne '+' (by decide), hne '-' (by decide), hz]
      | cons e u =>
        by_cases hp : e = '+'
        · subst hp
          simp [digitCount_append_cons hc]
        · by_cases hm : e = '-'
          · subst hm
            simp [digitCount_append_cons hc]
          · have he := digitCount_append_cons hc (e :: u) v
            rw [List.cons_append] at he
            simp [hp, hm, he]
    · simp [exponentLength, hd]

theorem numberLength_append_cons : numberLength (u ++ c :: v) = numberLength u := by
  have hw : digitCount u ≤ u.length := digitCount_le u
  have hf : digitCount u + fractionLength (u.drop (digitCount u)) ≤ u.length := by
    have := fractionLength_le (u.drop (digitCount u))
    rw [List.length_drop] at this
    omega
  simp only [numberLength, digitCount_append_cons hc]
  rw [List.drop_append_of_le_length hw, fractionLength_append_cons hc,
    List.drop_append_of_le_length hf, exponentLength_append_cons hc]

end

theorem numberLength_firstLine (u v : List Char) :
    numberLength (u ++ firstLine v) = numberLength (u ++ v) := by
  obtain hv | ⟨w, hv⟩ := eq_firstLine_or_break v
  · rw [← hv]
  · have hb := numberLength_append_cons (c := '\n') (by decide) (u ++ firstLine v) w
    rw [List.append_assoc, ← hv] at hb
    exact hb.symm

theorem commentLength?_append {xs : List Char} {n : Nat} (h : commentLength? xs = some n)
    (ys : List Char) : commentLength? (xs ++ ys) = some n := by
  induction xs generalizing n with
  | nil => simp [commentLength?] at h
  | cons c xs ih =>
    cases xs with
    | nil => simp [commentLength?] at h
    | cons d xs =>
      rw [commentLength?] at h
      rw [List.cons_append, commentLength?]
      split at h
      next hc => rw [if_pos (by simpa using hc), h]
      next hc =>
        obtain ⟨k, hk, rfl⟩ := Option.map_eq_some_iff.mp h
        rw [if_neg (by simpa using hc), ih hk]
        rfl

theorem commentLength?_of_append {xs ys : List Char} {n : Nat}
    (h : commentLength? (xs ++ ys) = some n) (hn : n ≤ xs.length) : commentLength? xs = some n := by
  have htwo : 2 ≤ xs.length := Nat.le_trans (two_le_of_commentLength? h) hn
  induction xs generalizing n with
  | nil => simp at htwo
  | cons c xs ih =>
    cases xs with
    | nil => simp at htwo
    | cons d xs =>
      rw [List.cons_append, commentLength?] at h
      rw [commentLength?]
      split at h
      next hc => rw [if_pos (by simpa using hc), h]
      next hc =>
        obtain ⟨k, hk, rfl⟩ := Option.map_eq_some_iff.mp h
        have hle : k ≤ (d :: xs).length := Nat.le_of_succ_le_succ hn
        rw [if_neg (by simpa using hc), ih hk hle (Nat.le_trans (two_le_of_commentLength? hk) hle)]
        rfl

section

variable {text rest rest' : List Char} (h : firstLine rest = firstLine rest')
include h

theorem head?_of_firstLine : ∀ c ∈ rest'.head?, c = '\n' ∨ c ∈ rest.head? := by
  intro c hc
  obtain ⟨tail, rfl⟩ := List.head?_eq_some_iff.mp hc
  by_cases hn : c = '\n'
  · exact .inl hn
  · right
    cases rest with
    | nil => simp [firstLine, hn] at h
    | cons d rest =>
      by_cases hd : d = '\n'
      · simp [firstLine, hd, hn] at h
      · have : d = c := by simp_all [firstLine]
        simp [this]

theorem Reads.of_firstLine {token : Option (TokenKind × String)} (hr : Reads text rest token) :
    Reads text rest' token := by
  have hhead := head?_of_firstLine h
  cases hr with
  | blank hb => exact .blank hb
  | lineComment hb hr => exact .lineComment hb fun c hc => (hhead c hc).elim id (hr c)
  | blockComment hl =>
    exact .blockComment (commentLength?_append (commentLength?_of_append hl (Nat.le_refl _)) _)
  | pair hk => exact .pair hk
  | symbol hk hc hp =>
    refine .symbol hk (fun d hd => ?_) fun d hd => ?_
    · obtain rfl | hd := hhead d hd
      · exact fun _ => by decide
      · exact hc d hd
    · obtain rfl | hd := hhead d hd
      · simp [pairSymbol?]
      · exact hp d hd
  | string hn =>
    refine .string fun hq => ?_
    obtain hl | hd := hhead _ hq
    · exact absurd hl (by decide)
    · exact hn hd
  | quotedName hb hn =>
    refine .quotedName hb fun hq => ?_
    obtain hl | hd := hhead _ hq
    · exact absurd hl (by decide)
    · exact hn hd
  | number hc hn =>
    refine .number hc ?_
    rw [← numberLength_firstLine, ← h, numberLength_firstLine, hn]
  | word hc hcs hn =>
    refine .word hc hcs fun d hd => ?_
    obtain rfl | hd := hhead d hd
    · decide
    · exact hn d hd

end

/-- What a token is, wherever it stands. -/
def Token.content (t : Token) : TokenKind × String := (t.kind, t.value)

theorem Lexes.shift {p q : Position} {cs rest : List Char} {ts : List Token}
    (h : Lexes p cs ts q rest) (p' : Position) :
    ∃ ts' q', Lexes p' cs ts' q' rest ∧ ts'.map Token.content = ts.map Token.content := by
  induction h generalizing p' with
  | done => exact ⟨[], p', .done, rfl⟩
  | @skip p text tail ts q rest hr _ ih =>
    obtain ⟨ts', q', hl, hts⟩ := ih (p'.advanceAll text)
    exact ⟨ts', q', .skip hr hl, hts⟩
  | @token p text tail kind value ts q rest hr hb _ ih =>
    obtain ⟨ts', q', hl, hts⟩ := ih (p'.advanceAll text)
    exact ⟨⟨kind, value, p'⟩ :: ts', q', .token hr hb hl, by
      rw [List.map_cons, List.map_cons, hts]
      rfl⟩

theorem Lexes.append_break {p q : Position} {cs : List Char} {ts : List Token}
    (h : Lexes p cs ts q []) : ∃ q', Lexes p (cs ++ ['\n']) ts q' [] := by
  generalize hrest : ([] : List Char) = rest at h
  induction h with
  | @done p rest =>
    subst hrest
    change ∃ q', Lexes p (['\n'] ++ []) [] q' []
    exact ⟨_, .skip (.blank (by decide)) .done⟩
  | skip hr _ ih =>
    obtain ⟨q', hl⟩ := ih hrest
    rw [List.append_assoc]
    exact ⟨q', .skip (hr.of_firstLine (firstLine_append_break _ _).symm) hl⟩
  | token hr hb _ ih =>
    obtain ⟨q', hl⟩ := ih hrest
    rw [List.append_assoc]
    exact ⟨q', .token (hr.of_firstLine (firstLine_append_break _ _).symm) hb hl⟩

end FormulaShell.Formula
