import FormulaShell.Formula.Lexer
import FormulaShell.Proofs.Text.Word

namespace FormulaShell.Formula

open FormulaShell.Text

/-- A quote inside of quotes is written twice. -/
def doubled (quote : Char) (body : List Char) : List Char :=
  body.flatMap fun c => if c = quote then [quote, quote] else [c]

def enclosed (quote : Char) (body : List Char) : List Char :=
  quote :: (doubled quote body ++ [quote])

theorem doubled_cons (quote c : Char) (body : List Char) :
    doubled quote (c :: body) = (if c = quote then [quote, quote] else [c]) ++ doubled quote body :=
  rfl

theorem quotedBody?_split {quote : Char} {cs body : List Char} {n : Nat}
    (h : quotedBody? quote cs = some (body, n)) :
    ∃ rest, cs = doubled quote body ++ quote :: rest ∧ n = (doubled quote body).length + 1 ∧
      rest.head? ≠ some quote := by
  induction cs using quotedBody?.induct quote generalizing body n with
  | case1 => simp [quotedBody?] at h
  | case2 =>
    rw [quotedBody?, if_pos rfl] at h
    cases h
    exact ⟨[], by simp [doubled]⟩
  | case3 tail ih =>
    rw [quotedBody?, if_pos rfl] at h
    simp only [if_true, Option.map_eq_some_iff, Prod.exists] at h
    obtain ⟨inner, k, hk, he⟩ := h
    cases he
    obtain ⟨rest, rfl, rfl, hr⟩ := ih hk
    exact ⟨rest, by simp [doubled_cons], by simp [doubled_cons], hr⟩
  | case4 d tail hd =>
    rw [quotedBody?, if_pos rfl] at h
    simp only [if_neg hd] at h
    cases h
    exact ⟨d :: tail, by simp [doubled], by simp [doubled], by simpa using hd⟩
  | case5 d tail hd ih =>
    rw [quotedBody?.eq_def] at h
    simp only [if_neg hd, Option.map_eq_some_iff, Prod.exists] at h
    obtain ⟨inner, k, hk, he⟩ := h
    cases he
    obtain ⟨rest, rfl, rfl, hr⟩ := ih hk
    exact ⟨rest, by simp [doubled_cons, hd], by simp [doubled_cons, hd], hr⟩

theorem quotedBody?_doubled {quote : Char} (body rest : List Char) (h : rest.head? ≠ some quote) :
    quotedBody? quote (doubled quote body ++ quote :: rest) =
      some (body, (doubled quote body).length + 1) := by
  induction body with
  | nil =>
    cases rest with
    | nil => simp [doubled, quotedBody?]
    | cons d tail => simp_all [doubled, quotedBody?]
  | cons c body ih =>
    by_cases hc : c = quote
    · subst c
      simp [doubled_cons, quotedBody?, ih]
    · rw [doubled_cons, if_neg hc, List.singleton_append, List.cons_append, quotedBody?.eq_def]
      simp [hc, ih]

/-- The forms of what starts at a character: its text, what comes after it, and the token if it is
one. -/
inductive Reads : List Char → List Char → Option (TokenKind × String) → Prop where
  | blank {c rest} : isBlank c → Reads [c] rest none
  | lineComment {body rest} : '\n' ∉ body → (∀ c ∈ rest.head?, c = '\n') →
      Reads ('/' :: '/' :: body) rest none
  | blockComment {body rest} : commentLength? (body ++ rest) = some body.length →
      Reads ('/' :: '*' :: body) rest none
  | pair {c d kind rest} : pairSymbol? c d = some kind →
      Reads [c, d] rest (some (kind, String.ofList [c, d]))
  | symbol {c kind rest} : symbol? c = some kind →
      (∀ d ∈ rest.head?, c = '/' → d ≠ '/' ∧ d ≠ '*') →
      (∀ d ∈ rest.head?, pairSymbol? c d = none) →
      Reads [c] rest (some (kind, String.singleton c))
  | string {body rest} : rest.head? ≠ some '"' →
      Reads (enclosed '"' body) rest (some (.string, String.ofList body))
  | quotedName {body rest} : body ≠ [] → rest.head? ≠ some '\'' →
      Reads (enclosed '\'' body) rest (some (.name, String.ofList body))
  | number {c cs rest} : isAsciiDigit c → numberLength (cs ++ rest) = cs.length →
      Reads (c :: cs) rest (some (.number, String.ofList (c :: cs)))
  | word {c cs rest} : isWordStart c → (∀ d ∈ cs, isWordChar d) →
      (∀ d ∈ rest.head?, isWordChar d = false) →
      Reads (c :: cs) rest (some (wordKind (String.ofList (c :: cs)), String.ofList (c :: cs)))

theorem ne_nil_of_reads {text rest : List Char} {token : Option (TokenKind × String)}
    (h : Reads text rest token) : text ≠ [] := by cases h <;> exact List.cons_ne_nil _ _

theorem digitCount_le (cs : List Char) : digitCount cs ≤ cs.length :=
  (List.takeWhile_prefix _).length_le

theorem fractionLength_le (cs : List Char) : fractionLength cs ≤ cs.length := by
  unfold fractionLength
  split
  next rest =>
    have h := digitCount_le rest
    split
    · exact Nat.zero_le _
    · simp only [List.length_cons]
      omega
  next => exact Nat.zero_le _

theorem exponentLength_le (cs : List Char) : exponentLength cs ≤ cs.length := by
  unfold exponentLength
  split
  next => exact Nat.zero_le _
  next c rest =>
    split
    next =>
      extract_lets sign digits
      have h := digitCount_le (rest.drop sign)
      rw [List.length_drop] at h
      split
      next => exact Nat.zero_le _
      next hd => simp only [List.length_cons]; omega
    next => exact Nat.zero_le _

theorem numberLength_le (cs : List Char) : numberLength cs ≤ cs.length := by
  have hw := digitCount_le cs
  have hf := fractionLength_le (cs.drop (digitCount cs))
  have he := exponentLength_le
    (cs.drop (digitCount cs + fractionLength (cs.drop (digitCount cs))))
  rw [List.length_drop] at hf he
  simp only [numberLength]
  omega

def isNumberChar (c : Char) : Bool :=
  isAsciiDigit c || c == '.' || c == 'e' || c == 'E' || c == '+' || c == '-'

theorem isNumberChar_of_mem_digits {cs : List Char} :
    ∀ d ∈ cs.take (digitCount cs), isNumberChar d := by
  intro d hd
  rw [digitCount, ← List.prefix_iff_eq_take.mp (List.takeWhile_prefix _)] at hd
  simp [isNumberChar, List.mem_takeWhile_imp hd]

theorem isNumberChar_of_mem_fraction {cs : List Char} :
    ∀ d ∈ cs.take (fractionLength cs), isNumberChar d := by
  intro d hd
  unfold fractionLength at hd
  split at hd
  next rest =>
    split at hd
    next => simp at hd
    next =>
      obtain rfl | hd := List.mem_cons.mp hd
      · decide
      · exact isNumberChar_of_mem_digits d hd
  next => simp at hd

theorem isNumberChar_of_mem_exponent {cs : List Char} :
    ∀ d ∈ cs.take (exponentLength cs), isNumberChar d := by
  intro d hd
  unfold exponentLength at hd
  split at hd
  next => simp at hd
  next c rest =>
    split at hd
    next hc =>
      extract_lets sign digits at hd
      split at hd
      next => simp at hd
      next =>
        rw [Nat.add_assoc, Nat.add_comm, List.take_succ_cons, List.take_add] at hd
        obtain rfl | hd := List.mem_cons.mp hd
        · obtain rfl | rfl := hc <;> decide
        · obtain hd | hd := List.mem_append.mp hd
          · simp only [sign] at hd
            split at hd <;> simp at hd <;> subst hd <;> decide
          · exact isNumberChar_of_mem_digits d hd
    next => simp at hd

theorem isNumberChar_of_mem_number {cs : List Char} :
    ∀ d ∈ cs.take (numberLength cs), isNumberChar d := by
  intro d hd
  simp only [numberLength, List.take_add, List.mem_append] at hd
  obtain (hd | hd) | hd := hd
  · exact isNumberChar_of_mem_digits d hd
  · exact isNumberChar_of_mem_fraction d hd
  · exact isNumberChar_of_mem_exponent d hd

theorem commentLength?_le {cs : List Char} {n : Nat} (h : commentLength? cs = some n) :
    n ≤ cs.length := by
  induction cs generalizing n with
  | nil => simp [commentLength?] at h
  | cons c rest ih =>
    rw [commentLength?] at h
    split at h
    next hc =>
      cases rest with
      | nil => simp at hc
      | cons d rest => cases h; simp
    next =>
      obtain ⟨k, hk, rfl⟩ := Option.map_eq_some_iff.mp h
      have := ih hk
      simp only [List.length_cons]
      omega

theorem two_le_of_commentLength? {cs : List Char} {n : Nat} (h : commentLength? cs = some n) :
    2 ≤ n := by
  induction cs generalizing n with
  | nil => simp [commentLength?] at h
  | cons c rest ih =>
    rw [commentLength?] at h
    split at h
    next => cases h; exact Nat.le_refl _
    next =>
      obtain ⟨k, hk, rfl⟩ := Option.map_eq_some_iff.mp h
      exact Nat.le_succ_of_le (ih hk)

theorem head?_dropWhile {p : Char → Bool} {cs : List Char} :
    ∀ d ∈ (cs.dropWhile p).head?, p d = false := by
  intro d hd
  have h := List.head?_dropWhile_not p cs
  rw [Option.mem_def.mp hd] at h
  simpa using h

theorem lexeme_reads {c : Char} {cs : List Char} {l : Lexeme} :
    lexeme c cs = .ok l →
      ∃ tail rest, cs = tail ++ rest ∧ l.more = tail.length ∧ Reads (c :: tail) rest l.token ∧
        (l.token ≠ none → isBlank c = false) := by
  fun_cases lexeme c cs
  case case1 hb =>
    rintro ⟨⟩
    exact ⟨[], cs, rfl, rfl, .blank hb, by simp⟩
  case case2 hc =>
    rintro ⟨⟩
    obtain ⟨rfl, hd⟩ := hc
    obtain ⟨body, rfl⟩ := List.head?_eq_some_iff.mp hd
    refine ⟨'/' :: body.takeWhile (· != '\n'), body.dropWhile (· != '\n'), ?_, by simp, ?_, by simp⟩
    · simp [List.takeWhile_append_dropWhile]
    · refine .lineComment (fun hm => ?_) (fun d hd => ?_)
      · simpa using List.mem_takeWhile_imp hm
      · simpa using head?_dropWhile d hd
  case case3 hc n hn =>
    rintro ⟨⟩
    obtain ⟨rfl, hd⟩ := hc
    obtain ⟨body, rfl⟩ := List.head?_eq_some_iff.mp hd
    rw [List.drop_one, List.tail_cons] at hn
    have hl : (body.take n).length = n := List.length_take_of_le (commentLength?_le hn)
    refine ⟨'*' :: body.take n, body.drop n, by simp, by simp [hl], ?_, by simp⟩
    exact .blockComment (by rw [List.take_append_drop, hl, hn])
  case case5 hb hc hd kind hk =>
    rintro ⟨⟩
    obtain ⟨d, hh, hp⟩ := Option.bind_eq_some_iff.mp hk
    obtain ⟨rest, rfl⟩ := List.head?_eq_some_iff.mp hh
    exact ⟨[d], rest, rfl, rfl, .pair hp, fun _ => by simpa using hb⟩
  case case6 hb hc hd hp kind hk =>
    rintro ⟨⟩
    refine ⟨[], cs, rfl, rfl, .symbol hk (fun d hh he => ?_) (fun d hh => ?_), fun _ => by simpa using hb⟩
    · constructor
      · rintro rfl
        exact hc ⟨he, hh⟩
      · rintro rfl
        exact hd ⟨he, hh⟩
    · rw [Option.mem_def.mp hh] at hp
      exact hp
  case case7 hb _ _ _ _ hc body n hn =>
    rintro ⟨⟩
    obtain ⟨rest, rfl, rfl, hr⟩ := quotedBody?_split hn
    subst c
    exact ⟨doubled '"' body ++ ['"'], rest, by simp, by simp, .string hr, fun _ => by simpa using hb⟩
  case case10 hb _ _ _ _ _ hc body n hne hn =>
    rintro ⟨⟩
    obtain ⟨rest, rfl, rfl, hr⟩ := quotedBody?_split hn
    subst c
    exact ⟨doubled '\'' body ++ ['\''], rest, by simp, by simp, .quotedName hne hr,
      fun _ => by simpa using hb⟩
  case case12 hb _ _ _ _ _ _ hc n =>
    rintro ⟨⟩
    have hl : (cs.take n).length = n := List.length_take_of_le (numberLength_le cs)
    exact ⟨cs.take n, cs.drop n, by simp, hl.symm,
      .number hc (by rw [List.take_append_drop, hl]), fun _ => by simpa using hb⟩
  case case13 hb _ _ _ _ _ _ _ hc word =>
    rintro ⟨⟩
    exact ⟨cs.takeWhile isWordChar, cs.dropWhile isWordChar, by simp, rfl,
      .word hc (fun d hd => List.mem_takeWhile_imp hd) head?_dropWhile, fun _ => by simpa using hb⟩
  all_goals nofun

theorem isBlank_eq_false_of_symbol? {c : Char} {kind : TokenKind} (h : symbol? c = some kind) :
    isBlank c = false := by
  unfold symbol? at h
  split at h <;> first | rfl | cases h

theorem head_of_pairSymbol? {c d : Char} {kind : TokenKind} (h : pairSymbol? c d = some kind) :
    isBlank c = false ∧ c ≠ '/' := by
  unfold pairSymbol? at h
  split_ifs at h with h1 h2 h3 h4 h5
  · obtain ⟨rfl, -⟩ := h1
    decide
  · obtain ⟨rfl, -⟩ := h2
    decide
  · obtain ⟨rfl, -⟩ := h3
    decide
  · obtain ⟨rfl, -⟩ := h4
    decide
  · obtain ⟨rfl, -⟩ := h5
    decide

theorem not_isWordChar_of_symbol? {c : Char} {kind : TokenKind} (h : symbol? c = some kind) :
    isWordChar c = false := by
  unfold symbol? at h
  split at h <;> first | decide +kernel | cases h

theorem symbols_of_isWordChar {c : Char} (h : isWordChar c = true) :
    symbol? c = none ∧ (∀ d : Option Char, d.bind (pairSymbol? c) = none) ∧ c ≠ '"' ∧
      c ≠ '\'' ∧ c ≠ '/' := by
  have hne (d : Char) (hd : isWordChar d = false) : c ≠ d := by
    rintro rfl
    rw [h] at hd
    cases hd
  refine ⟨?_, fun d => ?_, hne _ (by decide +kernel), hne _ (by decide +kernel),
    hne _ (by decide +kernel)⟩
  · cases hs : symbol? c with
    | none => rfl
    | some kind =>
      rw [not_isWordChar_of_symbol? hs] at h
      cases h
  · have h1 := hne '<' (by decide +kernel)
    have h2 := hne '>' (by decide +kernel)
    have h3 := hne '&' (by decide +kernel)
    have h4 := hne '|' (by decide +kernel)
    cases d <;> simp [pairSymbol?, h1, h2, h3, h4]

theorem isWordStart_ofNat_digit : ∀ n ∈ List.range' 48 10, isWordStart (Char.ofNat n) = false := by
  decide +kernel

theorem not_isAsciiDigit_of_isWordStart {c : Char} (h : isWordStart c = true) :
    isAsciiDigit c = false := by
  cases hd : isAsciiDigit c with
  | false => rfl
  | true =>
    simp only [isAsciiDigit, Bool.and_eq_true, decide_eq_true_eq] at hd
    have hw := isWordStart_ofNat_digit c.toNat (List.mem_range'_1.mpr ⟨hd.1, by omega⟩)
    rw [Char.ofNat_toNat, h] at hw
    cases hw

theorem lexeme_of_reads {c : Char} {tail rest : List Char} {token : Option (TokenKind × String)}
    (h : Reads (c :: tail) rest token) : lexeme c (tail ++ rest) = .ok ⟨tail.length, token⟩ := by
  generalize ht : c :: tail = text at h
  cases h with
  | blank hb =>
    cases ht
    rw [lexeme, if_pos hb]
    rfl
  | @lineComment body rest hbody hrest =>
    cases ht
    have hline : (body ++ rest).takeWhile (· != '\n') = body := by
      have hne : ∀ d ∈ body, (d != '\n') = true := by
        intro d hd
        rw [bne_iff_ne]
        rintro rfl
        exact hbody hd
      exact takeWhile_append_of_head hne fun d hd => by simp [hrest d hd]
    rw [lexeme, if_neg (by decide), if_pos ⟨rfl, rfl⟩]
    simp [hline]
  | blockComment hn =>
    cases ht
    rw [lexeme, if_neg (by decide), if_neg (by simp), if_pos ⟨rfl, rfl⟩]
    simp [hn]
  | pair hk =>
    cases ht
    obtain ⟨hb, hc⟩ := head_of_pairSymbol? hk
    rw [lexeme, if_neg (by simp [hb]), if_neg (by simp [hc]), if_neg (by simp [hc])]
    simp [hk]
  | symbol hk hs hp =>
    cases ht
    have hb := isBlank_eq_false_of_symbol? hk
    have hnone : rest.head?.bind (pairSymbol? c) = none := by
      cases hr : rest.head? with
      | none => rfl
      | some d => exact hp d hr
    rw [lexeme, if_neg (by simp [hb]), if_neg fun hc => (hs _ hc.2 hc.1).1 rfl,
      if_neg fun hc => (hs _ hc.2 hc.1).2 rfl]
    simp [hnone, hk]
  | string hr =>
    cases ht
    rw [lexeme, if_neg (by decide), if_neg (by simp), if_neg (by simp)]
    have hnone : ∀ d, pairSymbol? '"' d = none := by simp [pairSymbol?]
    simp [hnone, symbol?, quotedBody?_doubled _ _ hr]
  | @quotedName body rest hne hr =>
    cases ht
    obtain ⟨b, bs, rfl⟩ := List.exists_cons_of_ne_nil hne
    rw [lexeme, if_neg (by decide), if_neg (by simp), if_neg (by simp)]
    have hnone : ∀ d, pairSymbol? '\'' d = none := by simp [pairSymbol?]
    simp [hnone, symbol?, quotedBody?_doubled _ _ hr]
  | number hd hn =>
    cases ht
    have hw := isWordChar_of_isAsciiDigit hd
    obtain ⟨h1, h2, h3, h4, h5⟩ := symbols_of_isWordChar hw
    rw [lexeme, if_neg (by simp [isBlank_eq_false_of_isWordChar hw]), if_neg (by simp [h5]),
      if_neg (by simp [h5]), h2]
    simp [h1, h3, h4, hd, hn]
  | word hc hcs hr =>
    cases ht
    have hw := isWordChar_of_isWordStart hc
    obtain ⟨h1, h2, h3, h4, h5⟩ := symbols_of_isWordChar hw
    have htake := takeWhile_append_of_head hcs hr
    rw [lexeme, if_neg (by simp [isBlank_eq_false_of_isWordChar hw]), if_neg (by simp [h5]),
      if_neg (by simp [h5]), h2]
    simp [h1, h3, h4, not_isAsciiDigit_of_isWordStart hc, hc, htake]

end FormulaShell.Formula
