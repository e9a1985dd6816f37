import FormulaShell.Formula.Reading
import FormulaShell.Proofs.Script.Scan

namespace FormulaShell.Formula

def TokenKind.opens : TokenKind → Bool
  | leftParen | leftBrace | leftBracket => true
  | _ => false

def TokenKind.closes : TokenKind → Bool
  | rightParen | rightBrace | rightBracket => true
  | _ => false

/-- The opening brackets less the closing ones. -/
def bracketBalance (ts : List Token) : Int :=
  (ts.countP (·.kind.opens) : Int) - ts.countP (·.kind.closes)

def TokenKind.bracket (kind : TokenKind) : Int := kind.opens.toInt - kind.closes.toInt

end FormulaShell.Formula

namespace FormulaShell.Script

open FormulaShell.Text FormulaShell.Formula

/-- A scan between two lexemes, before the given rest. -/
def Scan.Between (s : Scan) (rest : List Char) : Prop :=
  (s.region = .code ∧ (s.last = some '/' → ∀ c ∈ rest.head?, c ≠ '/' ∧ c ≠ '*')) ∨
    (s.region = .lineComment ∧ ∀ c ∈ rest.head?, c = '\n')

theorem Scan.Between.region {s : Scan} {rest : List Char} (h : s.Between rest) :
    s.region = .code ∨ s.region = .lineComment := h.imp And.left And.left

theorem code_of_between {s : Scan} {c : Char} {cs : List Char} (h : s.Between (c :: cs))
    (hn : c ≠ '\n') : s.region = .code ∧ (s.last = some '/' → c ≠ '/' ∧ c ≠ '*') := by
  obtain ⟨hr, hl⟩ | ⟨-, hl⟩ := h
  · exact ⟨hr, fun he => hl he c rfl⟩
  · exact absurd (hl c rfl) hn

theorem depthChange_eq_bracket {c : Char} {kind : TokenKind} (h : symbol? c = some kind) :
    depthChange c = Int32.ofInt kind.bracket := by
  unfold symbol? at h
  split at h <;> cases h <;> rfl

theorem ordinary_of_pairSymbol? {c d : Char} {kind : TokenKind} (h : pairSymbol? c d = some kind) :
    isOrdinary c ∧ isOrdinary d ∧ kind.bracket = 0 := by
  unfold pairSymbol? at h
  split_ifs at h <;> rename_i hc <;> obtain ⟨rfl, rfl⟩ := hc <;> cases h <;> decide

theorem not_quote_of_symbol? {c : Char} {kind : TokenKind} (h : symbol? c = some kind) :
    c ≠ '"' ∧ c ≠ '\'' ∧ c ≠ '\n' := by
  refine ⟨?_, ?_, ?_⟩ <;> rintro rfl <;> cases h

theorem step_symbol {s : Scan} {c : Char} (hr : s.region = .code)
    (hl : s.last = some '/' → c ≠ '/' ∧ c ≠ '*') (hd : c ≠ '"') (hq : c ≠ '\'') :
    s.step c = s.take c .code (depthChange c) := by
  simp only [Scan.step, hr, if_neg hd, if_neg hq]
  rw [if_neg fun h => (hl h.1).1 h.2, if_neg fun h => (hl h.1).2 h.2]

theorem code_of_token {s : Scan} {c : Char} {cs : List Char} (h : s.Between (c :: cs))
    (hb : isBlank c = false) : s.region = .code ∧ (s.last = some '/' → c ≠ '/' ∧ c ≠ '*') := by
  refine code_of_between h ?_
  rintro rfl
  exact absurd hb (by decide)

theorem counted_of_ordinary {s : Scan} {c : Char} {cs rest : List Char}
    (h : s.Between (c :: cs ++ rest)) (hb : isBlank c = false) (hc : ∀ d ∈ c :: cs, isOrdinary d) :
    s.Counted (c :: cs) 0 .code (s.run (c :: cs)) ∧ (s.run (c :: cs)).last ≠ some '/' := by
  obtain ⟨hr, -⟩ := code_of_token h hb
  have hs := Scan.step_ordinary hr (hc c (by simp))
  refine ⟨Scan.counted_ordinary hr hc, Scan.last_run_ordinary ?_ ?_ hc⟩
  · rw [hs, Scan.last_take]
  · rw [hs, Scan.region_take]

theorem counted_of_reads {s : Scan} {text rest : List Char} {kind : TokenKind} {value : String}
    (h : Reads text rest (some (kind, value))) (hb : ∀ c ∈ text.head?, isBlank c = false)
    (hs : s.Between (text ++ rest)) :
    s.Counted text (Int32.ofInt kind.bracket) .code (s.run text) ∧
      (s.run text).Between rest := by
  suffices hc : s.Counted text (Int32.ofInt kind.bracket) .code (s.run text) ∧
      ((s.run text).last = some '/' → ∀ c ∈ rest.head?, c ≠ '/' ∧ c ≠ '*') from
    ⟨hc.1, .inl ⟨hc.1.region, hc.2⟩⟩
  generalize ht : some (kind, value) = token at h
  cases h with
  | pair hk =>
    cases ht
    obtain ⟨hc, hd, hz⟩ := ordinary_of_pairSymbol? hk
    have ⟨hn, hl⟩ := counted_of_ordinary hs (hb _ rfl) (by simp [hc, hd])
    exact ⟨by rwa [hz], fun he => absurd he hl⟩
  | symbol hk hn _ =>
    cases ht
    obtain ⟨hr, hl⟩ := code_of_token hs (hb _ rfl)
    obtain ⟨hd, hq, -⟩ := not_quote_of_symbol? hk
    have hstep := step_symbol hr hl hd hq
    rw [depthChange_eq_bracket hk] at hstep
    refine ⟨?_, fun he d hd' => hn d hd' ?_⟩
    · have hn := Scan.Counted.step hstep (.refl (by rw [hstep, Scan.region_take]))
      simpa using hn
    · rw [Scan.run_cons, Scan.run_nil, hstep] at he
      exact Option.some.inj he
  | @string body rest _ =>
    cases ht
    obtain ⟨hr, -⟩ := code_of_token hs (hb _ rfl)
    have ⟨hn, hl⟩ := Scan.counted_enclosed (.inl ⟨rfl, rfl⟩) hr body
    exact ⟨hn, fun he => by simp [hl] at he⟩
  | @quotedName body rest _ =>
    cases ht
    obtain ⟨hr, -⟩ := code_of_token hs (hb _ rfl)
    have ⟨hn, hl⟩ := Scan.counted_enclosed (.inr ⟨rfl, rfl⟩) hr body
    exact ⟨hn, fun he => by simp [hl] at he⟩
  | @number c cs rest hc hn =>
    cases ht
    have hcs : ∀ d ∈ cs, isNumberChar d := by
      have hm := @isNumberChar_of_mem_number (cs ++ rest)
      rwa [hn, List.take_left] at hm
    have ⟨hn, hl⟩ := counted_of_ordinary hs (hb _ rfl) fun d hd => by
      obtain rfl | hd := List.mem_cons.mp hd
      · exact isOrdinary_of_isWordChar (isWordChar_of_isAsciiDigit hc)
      · exact isOrdinary_of_isNumberChar (hcs d hd)
    exact ⟨hn, fun he => absurd he hl⟩
  | @word c cs rest hc hcs _ =>
    cases ht
    have ⟨hn, hl⟩ := counted_of_ordinary hs (hb _ rfl) fun d hd => by
      obtain rfl | hd := List.mem_cons.mp hd
      · exact isOrdinary_of_isWordChar (isWordChar_of_isWordStart hc)
      · exact isOrdinary_of_isWordChar (hcs d hd)
    have hz : (wordKind (String.ofList (c :: cs))).bracket = 0 := by
      unfold wordKind
      split_ifs <;> rfl
    exact ⟨by rwa [hz], fun he => absurd he hl⟩
  | _ => cases ht

/-- The first half of a comment's mark is counted as code, the second takes that back. -/
theorem step_comment {s : Scan} {cs : List Char} (h : s.Between ('/' :: cs)) :
    (s.step '/').step '/' = ⟨.lineComment, s.depth, some '/', s.useful⟩ ∧
      (s.step '/').step '*' = ⟨.blockComment, s.depth, none, s.useful⟩ := by
  obtain ⟨hr, hl⟩ := code_of_between h (by decide)
  have hs := step_symbol hr hl (by decide) (by decide)
  rw [hs]
  constructor <;> simp [Scan.step, Scan.take, Scan.beginComment, isBlank, depthChange]

theorem between_of_trivia {s : Scan} {text rest : List Char} (h : Reads text rest none)
    (hs : s.Between (text ++ rest)) :
    (s.run text).Between rest ∧ (s.run text).depth = s.depth ∧ (s.run text).useful = s.useful := by
  generalize ht : none = token at h
  cases h with
  | @blank c rest hb =>
    have hu : usefulIn [c] = 0 := by simp [usefulIn, hb]
    obtain ⟨hr, -⟩ | ⟨hr, hn⟩ := hs
    · have hc := Scan.step_ordinary hr (isOrdinary_of_isBlank hb)
      rw [Scan.run_cons, Scan.run_nil, hc, Scan.useful_take, hu]
      refine ⟨.inl ⟨rfl, fun he => ?_⟩, by simp, rfl⟩
      cases he
      exact absurd hb (by decide)
    · obtain rfl : c = '\n' := hn c rfl
      simp [Scan.step, hr, Scan.Between]
  | @lineComment body rest hb hr =>
    rw [Scan.run_cons, Scan.run_cons, (step_comment hs).1]
    obtain ⟨hr', hd, hu⟩ := Scan.run_lineComment (s := ⟨.lineComment, s.depth, some '/', s.useful⟩) rfl hb
    exact ⟨.inr ⟨hr', hr⟩, hd, hu⟩
  | @blockComment body rest hl =>
    rw [Scan.run_cons, Scan.run_cons, (step_comment hs).2, Scan.run_blockComment rfl (by simp) hl]
    exact ⟨.inl ⟨rfl, by simp⟩, rfl, rfl⟩
  | _ => cases ht

theorem bracketBalance_cons (t : Token) (ts : List Token) :
    bracketBalance (t :: ts) = t.kind.bracket + bracketBalance ts := by
  simp only [bracketBalance, TokenKind.bracket, List.countP_cons]
  cases t.kind.opens <;> cases t.kind.closes <;> simp <;> omega

theorem run_of_lexes {p q : Position} {cs rest : List Char} {ts : List Token}
    (h : Lexes p cs ts q rest) {s : Scan} (before : List Char) (hs : s.Between cs)
    (hp : p.offset = byteLength before) :
    ∃ used, cs = used ++ rest ∧ (s.run used).Between rest ∧
      (s.run used).depth = s.depth + Int32.ofInt (bracketBalance ts) ∧
      (s.run used).useful =
        s.useful + usefulIn (ts.flatMap (Token.spelling (before ++ cs))) := by
  induction h generalizing s before with
  | done => exact ⟨[], rfl, hs, by simp [bracketBalance], by simp [usefulIn]⟩
  | @skip p text tail ts q rest hr _ ih =>
    obtain ⟨hb, hd, hu⟩ := between_of_trivia hr hs
    obtain ⟨used, rfl, hb', hd', hu'⟩ := ih (before ++ text) hb (by
      rw [Position.offset_advanceAll, hp, byteLength_append])
    refine ⟨text ++ used, by simp, ?_⟩
    rw [Scan.run_append]
    exact ⟨hb', by rw [hd', hd], by rw [hu', hu, List.append_assoc]⟩
  | @token p text tail kind value ts q rest hr hb _ ih =>
    obtain ⟨hc, hb'⟩ := counted_of_reads hr hb hs
    obtain ⟨used, rfl, hb'', hd, hu⟩ := ih (before ++ text) hb' (by
      rw [Position.offset_advanceAll, hp, byteLength_append])
    refine ⟨text ++ used, by simp, ?_⟩
    rw [Scan.run_append]
    refine ⟨hb'', ?_, ?_⟩
    · rw [hd, hc.depth, bracketBalance_cons, Int32.ofInt_add, Int32.add_assoc]
    · rw [hu, hc.useful, List.flatMap_cons, usefulIn_append, spelling_of_reads hr hp,
        List.append_assoc, Nat.add_assoc]

theorem useful_spelling_pos {p q : Position} {cs rest : List Char} {ts : List Token}
    (h : Lexes p cs ts q rest) (before : List Char) (hp : p.offset = byteLength before) :
    ∀ t ∈ ts, 0 < usefulIn (t.spelling (before ++ cs)) := by
  induction h generalizing before with
  | done => simp
  | @skip p text tail ts q rest _ _ ih =>
    rw [← List.append_assoc]
    exact ih _ (by rw [Position.offset_advanceAll, hp, byteLength_append])
  | @token p text tail kind value ts q rest hr hb _ ih =>
    intro t ht
    obtain rfl | ht := List.mem_cons.mp ht
    · rw [spelling_of_reads hr hp]
      obtain ⟨c, cs, rfl⟩ := List.exists_cons_of_ne_nil (ne_nil_of_reads hr)
      rw [usefulIn_cons, usefulIn, List.countP_singleton, hb c rfl]
      exact Nat.lt_add_right _ Nat.one_pos
    · rw [← List.append_assoc]
      exact ih _ (by rw [Position.offset_advanceAll, hp, byteLength_append]) t ht

theorem bracketBalance_append (ts us : List Token) :
    bracketBalance (ts ++ us) = bracketBalance ts + bracketBalance us := by
  simp only [bracketBalance, List.countP_append]
  omega

theorem natAbs_bracketBalance_le (ts : List Token) : (bracketBalance ts).natAbs ≤ ts.length := by
  have hopens := ts.countP_le_length (p := (·.kind.opens))
  have hcloses := ts.countP_le_length (p := (·.kind.closes))
  rw [bracketBalance]
  omega

theorem length_le_usefulIn {source : List Char} {ts : List Token}
    (h : ∀ t ∈ ts, 0 < usefulIn (t.spelling source)) :
    ts.length ≤ usefulIn (ts.flatMap (Token.spelling source)) := by
  induction ts with
  | nil => exact Nat.le_refl 0
  | cons t ts ih =>
    obtain ⟨ht, hts⟩ := List.forall_mem_cons.mp h
    rw [List.flatMap_cons, usefulIn_append, List.length_cons, Nat.add_comm]
    exact Nat.add_le_add ht (ih hts)

/-- A 32-bit count is exact as long as the number is one. -/
theorem toInt_ofInt_eq_self_iff {n : Int} :
    (Int32.ofInt n).toInt = n ↔ Int32.minValue.toInt ≤ n ∧ n ≤ Int32.maxValue.toInt := by
  constructor
  · intro h
    rw [← h]
    exact ⟨Int32.minValue_le_toInt _, Int32.toInt_le _⟩
  · rintro ⟨hmin, hmax⟩
    exact Int32.toInt_ofInt_of_le hmin (Int.lt_of_le_sub_one hmax)

theorem between_start (cs : List Char) : Scan.start.Between cs := .inl ⟨rfl, nofun⟩

theorem region_of_unclosed_quote {s : Scan} {quote : Char} {r : Region} {cs : List Char}
    (hq : Quotes quote r) (hs : s.Between (quote :: cs)) (h : quotedBody? quote cs = none) :
    (s.run (quote :: cs)).region = r := by
  have hn : quote ≠ '\n' := by
    obtain ⟨rfl, -⟩ | ⟨rfl, -⟩ := hq <;> decide
  have hopen := Scan.step_open hq (code_of_between hs hn).1
  rw [Scan.run_cons]
  exact Scan.region_run_unclosed hq (by rw [hopen, Scan.region_take]) h

theorem region_of_unclosed {s : Scan} {c : Char} {cs : List Char} {fault : LexFault}
    (hs : s.Between (c :: cs)) (h : lexeme c cs = .error fault) :
    (fault = .unclosedComment → (s.run (c :: cs)).region = .blockComment) ∧
      (fault = .unclosedString → (s.run (c :: cs)).region = .doubleQuoted) ∧
      (fault = .unclosedName → (s.run (c :: cs)).region = .singleQuoted) := by
  revert h
  fun_cases lexeme c cs
  case case4 hc hn =>
    rintro ⟨⟩
    refine ⟨fun _ => ?_, by simp, by simp⟩
    obtain ⟨rfl, hd⟩ := hc
    obtain ⟨body, rfl⟩ := List.head?_eq_some_iff.mp hd
    rw [Scan.run_cons, Scan.run_cons, (step_comment hs).2]
    exact Scan.region_run_blockComment rfl (by simp) hn
  case case8 hb _ _ _ _ hc hn =>
    rintro ⟨⟩
    subst c
    exact ⟨by simp, fun _ => region_of_unclosed_quote (.inl ⟨rfl, rfl⟩) hs hn, by simp⟩
  case case11 hb _ _ _ _ _ hc hn =>
    rintro ⟨⟩
    subst c
    exact ⟨by simp, by simp, fun _ => region_of_unclosed_quote (.inr ⟨rfl, rfl⟩) hs hn⟩
  all_goals
    rintro ⟨⟩
    try exact ⟨by simp, by simp, by simp⟩

end FormulaShell.Script
