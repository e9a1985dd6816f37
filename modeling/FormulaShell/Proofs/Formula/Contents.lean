import FormulaShell.Proofs.Formula.LineEnds

namespace FormulaShell.Formula

open FormulaShell.Text

/-- The kinds and the values of the tokens of a text, if it lexes. -/
def contents? (source : String) : Option (List (TokenKind × String)) :=
  (lex source).toOption.map fun ts => ts.list.map Token.content

def contentsFrom (p : Position) (cs : List Char) : Option (List (TokenKind × String)) :=
  (lexFrom p cs).toOption.map fun ts => ts.list.map Token.content

abbrev contentsOf (cs : List Char) : Option (List (TokenKind × String)) := contentsFrom .start cs

theorem contents?_ofList (cs : List Char) : contents? (String.ofList cs) = contentsOf cs := by
  rw [contents?, lex, String.toList_ofList, contentsOf, contentsFrom]
  cases lexFrom .start cs with
  | ok ts => rfl
  | error e => rfl

theorem contentsFrom_cons (p : Position) (c : Char) (cs : List Char) :
    contentsFrom p (c :: cs) =
      match lexeme c cs with
      | .error _ => none
      | .ok l => (contentsFrom (p.advanceAll (c :: cs.take l.more)) (cs.drop l.more)).map
          (l.token.toList ++ ·) := by
  rw [contentsFrom, lexFrom_cons]
  cases lexeme c cs with
  | error fault => rfl
  | ok l =>
    obtain ⟨more, token⟩ := l
    simp only [contentsFrom]
    cases lexFrom (p.advanceAll (c :: cs.take more)) (cs.drop more) with
    | error e => rfl
    | ok ts => cases token <;> rfl

theorem contentsFrom_eq (p q : Position) (cs : List Char) :
    contentsFrom p cs = contentsFrom q cs := by
  induction hn : cs.length using Nat.strongRecOn generalizing p q cs with
  | _ n ih =>
    subst hn
    cases cs with
    | nil => rw [contentsFrom, contentsFrom, lexFrom_nil, lexFrom_nil]; rfl
    | cons c cs =>
      rw [contentsFrom_cons, contentsFrom_cons]
      cases lexeme c cs with
      | error fault => rfl
      | ok l =>
        have hlt : (cs.drop l.more).length < (c :: cs).length := by
          rw [List.length_drop, List.length_cons]
          omega
        simp only [ih _ hlt _ (q.advanceAll (c :: cs.take l.more)) (cs.drop l.more) rfl]

@[simp] theorem contentsOf_nil : contentsOf [] = some [] := by
  rw [contentsOf, contentsFrom, lexFrom_nil]
  rfl

theorem contentsOf_error {c : Char} {cs : List Char} {fault : LexFault}
    (h : lexeme c cs = .error fault) : contentsOf (c :: cs) = none := by
  rw [contentsOf, contentsFrom_cons, h]

theorem contentsOf_reads {text rest : List Char} {token : Option (TokenKind × String)}
    (h : Reads text rest token) :
    contentsOf (text ++ rest) = (contentsOf rest).map (token.toList ++ ·) := by
  obtain ⟨c, cs, rfl⟩ := List.exists_cons_of_ne_nil (ne_nil_of_reads h)
  rw [List.cons_append, contentsOf, contentsFrom_cons, lexeme_of_reads h]
  dsimp only
  rw [List.drop_left, contentsFrom_eq _ .start]

theorem contentsOf_trivia {text rest : List Char} (h : Reads text rest none) :
    contentsOf (text ++ rest) = contentsOf rest := by
  rw [contentsOf_reads h]
  simp

theorem contentsOf_blank {b : Char} (hb : isBlank b) (cs : List Char) :
    contentsOf (b :: cs) = contentsOf cs :=
  contentsOf_trivia (.blank hb)

theorem reads_slashes {body rest : List Char} {token : Option (TokenKind × String)}
    (h : Reads ('/' :: '/' :: body) rest token) : '\n' ∉ body ∧ token = none := by
  generalize ht : '/' :: '/' :: body = text at h
  cases h with
  | lineComment hn _ =>
    cases ht
    exact ⟨hn, rfl⟩
  | pair hk =>
    cases ht
    simp [pairSymbol?] at hk
  | number hc _ =>
    cases ht
    exact absurd hc (by decide)
  | word hc _ _ =>
    cases ht
    exact absurd hc (by decide)
  | _ => cases ht

theorem isBlank_eq_false_of_isNumberChar {c : Char} (h : isNumberChar c) : isBlank c = false := by
  simp only [isNumberChar, Bool.or_eq_true, beq_iff_eq] at h
  obtain ((((h | rfl) | rfl) | rfl) | rfl) | rfl := h
  · exact isBlank_eq_false_of_isWordChar (isWordChar_of_isAsciiDigit h)
  all_goals decide

def isStop (c : Char) : Bool := isBlank c || c == ')'

theorem isStop_of_isBlank {c : Char} (h : isBlank c) : isStop c := by simp [isStop, h]

theorem isNumberChar_of_isStop {c : Char} (h : isStop c) : isNumberChar c = false := by
  cases hn : isNumberChar c with
  | false => rfl
  | true =>
    rw [isStop, isBlank_eq_false_of_isNumberChar hn] at h
    obtain rfl : c = ')' := by simpa using h
    exact absurd hn (by decide)

theorem isWordChar_of_isStop {c : Char} (h : isStop c) : isWordChar c = false := by
  cases hw : isWordChar c with
  | false => rfl
  | true =>
    rw [isStop, isBlank_eq_false_of_isWordChar hw] at h
    obtain rfl : c = ')' := by simpa using h
    exact absurd hw (by decide +kernel)

section

variable {b : Char} (hb : isStop b)
include hb

theorem ne_of_isStop {c : Char} (hc : isStop c = false) : b ≠ c := by
  rintro rfl
  rw [hb] at hc
  cases hc

theorem pairSymbol?_stop (c : Char) : pairSymbol? c b = none := by
  simp [pairSymbol?, ne_of_isStop hb (show isStop '>' = false by decide),
    ne_of_isStop hb (show isStop '=' = false by decide),
    ne_of_isStop hb (show isStop '&' = false by decide),
    ne_of_isStop hb (show isStop '|' = false by decide)]

omit hb in
theorem head?_append_cons {rest w : List Char} :
    ∀ c ∈ (rest ++ b :: w).head?, c = b ∨ c ∈ rest.head? := by
  intro c hc
  cases rest with
  | nil => exact .inl (by simpa using hc.symm)
  | cons d rest => exact .inr hc

/-- A lexeme is the same before a blank as at the end of the text. Only a line comment would take
the blank in. -/
theorem Reads.append_stop {text rest : List Char} {token : Option (TokenKind × String)}
    (h : Reads text rest token) (w : List Char)
    (hline : rest = [] → (∃ body, text = '/' :: '/' :: body) → b = '\n') :
    Reads text (rest ++ b :: w) token := by
  cases h with
  | blank hc => exact .blank hc
  | lineComment hbody hr =>
    refine .lineComment hbody fun c hc => ?_
    cases rest with
    | nil =>
      obtain rfl : b = c := by simpa using hc
      exact hline rfl ⟨_, rfl⟩
    | cons d rest => exact hr c hc
  | blockComment hl =>
    refine .blockComment ?_
    rw [← List.append_assoc]
    exact commentLength?_append hl _
  | pair hk => exact .pair hk
  | symbol hk hs hp =>
    refine .symbol hk (fun d hd => ?_) fun d hd => ?_
    · obtain rfl | hd := head?_append_cons d hd
      · exact fun _ => ⟨ne_of_isStop hb (by decide), ne_of_isStop hb (by decide)⟩
      · exact hs d hd
    · obtain rfl | hd := head?_append_cons d hd
      · exact pairSymbol?_stop hb _
      · exact hp d hd
  | string hn =>
    refine .string fun hq => ?_
    obtain hd | hd := head?_append_cons _ hq
    · exact ne_of_isStop hb (by decide) hd.symm
    · exact hn hd
  | quotedName hne hn =>
    refine .quotedName hne fun hq => ?_
    obtain hd | hd := head?_append_cons _ hq
    · exact ne_of_isStop hb (by decide) hd.symm
    · exact hn hd
  | number hc hn =>
    refine .number hc ?_
    rw [← List.append_assoc, numberLength_append_cons (isNumberChar_of_isStop hb), hn]
  | word hc hcs hn =>
    refine .word hc hcs fun d hd => ?_
    obtain rfl | hd := head?_append_cons d hd
    · exact isWordChar_of_isStop hb
    · exact hn d hd

theorem commentLength?_append_stop {cs : List Char} (h : commentLength? cs = none) :
    commentLength? (cs ++ [b]) = none := by
  induction cs with
  | nil => simp [commentLength?]
  | cons c cs ih =>
    rw [commentLength?] at h
    split at h
    next => cases h
    next hc =>
      have hc' : ¬ (c = '*' ∧ (cs ++ [b]).head? = some '/') := by
        rintro ⟨rfl, hd⟩
        obtain hd | hd := head?_append_cons _ hd
        · exact ne_of_isStop hb (by decide) hd.symm
        · exact hc ⟨rfl, hd⟩
      rw [List.cons_append, commentLength?, if_neg hc', ih (by simpa using h)]
      rfl

theorem quotedBody?_append_stop {quote : Char} (hq : isStop quote = false) {cs : List Char}
    (h : quotedBody? quote cs = none) : quotedBody? quote (cs ++ [b]) = none := by
  have hne := ne_of_isStop hb hq
  induction cs using quotedBody?.induct quote with
  | case1 => simp [quotedBody?, hne]
  | case2 => simp [quotedBody?] at h
  | case3 rest ih =>
    have hrest : quotedBody? quote rest = none := by simpa [quotedBody?] using h
    simp [quotedBody?, ih hrest]
  | case4 d rest hd => simp [quotedBody?, hd] at h
  | case5 d rest hd ih =>
    have hrest : quotedBody? quote rest = none := by
      rw [quotedBody?.eq_def] at h
      simpa [hd] using h
    rw [List.cons_append, quotedBody?.eq_def]
    simp [hd, ih hrest]

/-- White space does not mend what is at fault. What follows it might close what is open. -/
theorem lexeme_append_stop {c : Char} {cs : List Char} {fault : LexFault} (w : List Char)
    (h : lexeme c cs = .error fault)
    (hw : w = [] ∨ fault = .emptyName ∨ ∃ d, fault = .unexpected d) :
    lexeme c (cs ++ b :: w) = .error fault := by
  revert h
  fun_cases lexeme c cs
  case case4 hc hn =>
    rintro ⟨⟩
    obtain rfl : w = [] := by simpa using hw
    obtain ⟨rfl, hd⟩ := hc
    obtain ⟨body, rfl⟩ := List.head?_eq_some_iff.mp hd
    have hopen : commentLength? (body ++ [b]) = none :=
      commentLength?_append_stop hb (by simpa using hn)
    rw [lexeme, if_neg (by decide), if_neg (by simp), if_pos (by simp)]
    simp [hopen]
  case case8 hc hn =>
    rintro ⟨⟩
    obtain rfl : w = [] := by simpa using hw
    subst hc
    have hopen := quotedBody?_append_stop hb (by decide) hn
    have hnone : ∀ d, pairSymbol? '"' d = none := by simp [pairSymbol?]
    rw [lexeme, if_neg (by decide), if_neg (by simp), if_neg (by simp)]
    simp [hnone, symbol?, hopen]
  case case9 hc n hn =>
    rintro ⟨⟩
    subst hc
    obtain ⟨rest, rfl, rfl, hr⟩ := quotedBody?_split hn
    have hr' : (rest ++ b :: w).head? ≠ some '\'' := by
      intro hq
      obtain hd | hd := head?_append_cons _ hq
      · exact ne_of_isStop hb (by decide) hd.symm
      · exact hr hd
    have hempty := quotedBody?_doubled [] _ hr'
    have hnone : ∀ d, pairSymbol? '\'' d = none := by simp [pairSymbol?]
    rw [lexeme, if_neg (by decide), if_neg (by simp), if_neg (by simp)]
    simp only [doubled, List.flatMap_nil, List.nil_append] at hempty
    simp [hnone, symbol?, doubled, hempty]
  case case11 hc hn =>
    rintro ⟨⟩
    obtain rfl : w = [] := by simpa using hw
    subst hc
    have hopen := quotedBody?_append_stop hb (by decide) hn
    have hnone : ∀ d, pairSymbol? '\'' d = none := by simp [pairSymbol?]
    rw [lexeme, if_neg (by decide), if_neg (by simp), if_neg (by simp)]
    simp [hnone, symbol?, hopen]
  case case14 hblank _ _ hpair hs hd hq hdigit hword =>
    rintro ⟨⟩
    have hslash : c ≠ '/' := by
      rintro rfl
      cases hs
    have hpair' : (cs ++ b :: w).head?.bind (pairSymbol? c) = none := by
      cases cs with
      | nil => exact pairSymbol?_stop hb c
      | cons d cs => exact hpair
    rw [lexeme, if_neg hblank, if_neg (by simp [hslash]), if_neg (by simp [hslash]), hpair']
    simp [hs, hd, hq, hdigit, hword]
  all_goals rintro ⟨⟩

end

end FormulaShell.Formula
