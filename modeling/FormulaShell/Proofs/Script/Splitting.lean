import FormulaShell.Proofs.Formula.LineEnds
import FormulaShell.Proofs.Script.LexerAgreement
import FormulaShell.Script.Reading

namespace FormulaShell.Script

open FormulaShell.Text FormulaShell.Formula

section

variable {quote : Char} {r : Region} {s : Scan} {u v body rest rest' : List Char}

theorem region_run_line_of_doubled (hq : Quotes quote r) (hr : s.region = r)
    (h : doubled quote body ++ rest = u ++ '\n' :: v) (hv : rest.length ≤ v.length) :
    (s.run (u ++ ['\n'])).region = r := by
  have hn : quote ≠ '\n' := by
    obtain ⟨rfl, -⟩ | ⟨rfl, -⟩ := hq <;> decide
  induction body generalizing s u with
  | nil =>
    have hl := congrArg List.length h
    simp [doubled] at hl
    omega
  | cons c body ih =>
    have hs := Scan.step_quoted hq hr c
    by_cases hc : c = quote
    · subst c
      have hopen := Scan.step_open (s := s.step quote) hq (by simp [hs])
      rw [doubled_cons, if_pos rfl] at h
      cases u with
      | nil => simp [hn] at h
      | cons a u =>
        cases u with
        | nil => simp [hn] at h
        | cons b u =>
          simp only [List.cons_append, List.nil_append, List.cons.injEq] at h
          obtain ⟨rfl, rfl, h⟩ := h
          exact ih (s := (s.step quote).step quote) (by rw [hopen, Scan.region_take]) h
    · rw [doubled_cons, if_neg hc] at h
      cases u with
      | nil =>
        simp only [List.cons_append, List.nil_append, List.cons.injEq] at h
        obtain ⟨rfl, -⟩ := h
        simp [hs, hc]
      | cons d u =>
        simp only [List.cons_append, List.nil_append, List.cons.injEq] at h
        obtain ⟨rfl, h⟩ := h
        exact ih (s := s.step c) (by simp [hs, hc]) h

theorem region_run_line_of_enclosed (hq : Quotes quote r) (hs : s.Between (quote :: rest))
    (h : enclosed quote body = u ++ '\n' :: v) (hv : v ≠ []) :
    (s.run (u ++ ['\n'])).region = r := by
  have hn : quote ≠ '\n' := by
    obtain ⟨rfl, -⟩ | ⟨rfl, -⟩ := hq <;> decide
  have hopen := Scan.step_open hq (code_of_between hs hn).1
  rw [enclosed] at h
  cases u with
  | nil => simp [hn] at h
  | cons c u =>
    simp only [List.cons_append, List.cons.injEq] at h
    obtain ⟨rfl, h⟩ := h
    rw [List.cons_append, Scan.run_cons]
    exact region_run_line_of_doubled hq (by rw [hopen, Scan.region_take]) h
      (List.length_pos_iff.mpr hv)

theorem region_run_line_of_comment (hs : s.Between ('/' :: rest))
    (hl : commentLength? (body ++ rest') = some body.length)
    (h : '/' :: '*' :: body = u ++ '\n' :: v) (hv : v ≠ []) :
    (s.run (u ++ ['\n'])).region = .blockComment := by
  cases u with
  | nil => simp at h
  | cons a u =>
    cases u with
    | nil => simp at h
    | cons b u =>
      simp only [List.cons_append, List.cons.injEq] at h
      obtain ⟨rfl, rfl, rfl⟩ := h
      have hnone : commentLength? (u ++ ['\n']) = none := by
        cases hc : commentLength? (u ++ ['\n']) with
        | none => rfl
        | some n =>
          -- the comment would end with this line
          have hn := commentLength?_le hc
          have hlong := commentLength?_append hc (v ++ rest')
          have hsame : u ++ ['\n'] ++ (v ++ rest') = u ++ '\n' :: v ++ rest' := by simp
          rw [hsame, hl, Option.some.injEq] at hlong
          have hpos := List.length_pos_iff.mpr hv
          simp at hn hlong
          omega
      rw [List.cons_append, List.cons_append, Scan.run_cons, Scan.run_cons, (step_comment hs).2]
      exact Scan.region_run_blockComment rfl (by simp) hnone

theorem break_not_mem_of_symbol {c : Char} {kind : TokenKind} (h : symbol? c = some kind) :
    '\n' ∉ [c] := by
  rw [List.mem_singleton]
  exact fun hc => (not_quote_of_symbol? h).2.2 hc.symm

theorem break_not_mem_of_number {c : Char} {cs : List Char} (hc : isAsciiDigit c)
    (hn : numberLength (cs ++ rest) = cs.length) : '\n' ∉ c :: cs := by
  intro hm
  obtain rfl | hm := List.mem_cons.mp hm
  · exact absurd hc (by decide)
  · have hcs := @isNumberChar_of_mem_number (cs ++ rest) '\n'
    rw [hn, List.take_left] at hcs
    exact absurd (hcs hm) (by decide)

theorem break_not_mem_of_word {c : Char} {cs : List Char} (hc : isWordStart c)
    (hcs : ∀ d ∈ cs, isWordChar d) : '\n' ∉ c :: cs := by
  intro hm
  obtain rfl | hm := List.mem_cons.mp hm
  · exact absurd hc (by decide)
  · exact absurd (hcs _ hm) (by decide)

variable {text tail ys : List Char} {token : Option (TokenKind × String)}

theorem region_run_line_of_reads (h : Reads text rest token) (hs : s.Between (text ++ rest))
    (ht : text = u ++ '\n' :: v) (hv : v ≠ []) : (s.run (u ++ ['\n'])).region ≠ .code := by
  have hm : '\n' ∈ text := by simp [ht]
  have hlength : 2 ≤ text.length := by
    have := List.length_pos_iff.mpr hv
    simp [ht]
    omega
  cases h with
  | blank => simp at hlength
  | lineComment hb => simp [hb] at hm
  | blockComment hl => simp [region_run_line_of_comment hs hl ht hv]
  | pair hk =>
    cases u with
    | nil =>
      simp only [List.nil_append, List.cons.injEq] at ht
      obtain ⟨rfl, -⟩ := ht
      simp [pairSymbol?] at hk
    | cons c u =>
      have hl := congrArg List.length ht
      have hpos := List.length_pos_iff.mpr hv
      simp at hl
      omega
  | symbol hk => exact absurd hm (break_not_mem_of_symbol hk)
  | string => simp [region_run_line_of_enclosed (.inl ⟨rfl, rfl⟩) hs ht hv]
  | quotedName => simp [region_run_line_of_enclosed (.inr ⟨rfl, rfl⟩) hs ht hv]
  | number hc hn => exact absurd hm (break_not_mem_of_number hc hn)
  | word hc hcs => exact absurd hm (break_not_mem_of_word hc hcs)

theorem ne_enclosed {c : Char} (hc : c ≠ quote) : u ++ [c] ≠ enclosed quote body := by
  rw [enclosed, ← List.cons_append]
  intro h
  obtain ⟨-, h⟩ := List.append_inj' h rfl
  exact hc (List.cons.inj h).1

theorem reads_of_ends_line (h : Reads (u ++ ['\n']) rest token) :
    Reads (u ++ ['\n']) rest' token := by
  generalize ht : u ++ ['\n'] = text at h
  have hm : '\n' ∈ text := by simp [← ht]
  cases h with
  | blank hb => exact .blank hb
  | lineComment hb => simp [hb] at hm
  | blockComment hl =>
    exact .blockComment (commentLength?_append (commentLength?_of_append hl (Nat.le_refl _)) _)
  | pair hk => exact .pair hk
  | symbol hk => exact absurd hm (break_not_mem_of_symbol hk)
  | string => exact absurd ht (ne_enclosed (by decide))
  | quotedName => exact absurd ht (ne_enclosed (by decide))
  | number hc hn => exact absurd hm (break_not_mem_of_number hc hn)
  | word hc hcs => exact absurd hm (break_not_mem_of_word hc hcs)

/-- A line end at which a scan is in code comes after the first lexeme, which is the same if the
text ends there. -/
theorem reads_of_line_in_code (h : Reads text tail token) (hs : s.Between (text ++ tail))
    (hcs : text ++ tail = u ++ '\n' :: ys) (hr : (s.run (u ++ ['\n'])).region = .code) :
    ∃ v, u ++ ['\n'] = text ++ v ∧ tail = v ++ ys ∧ Reads text v token ∧
      (v = [] ∨ ∃ w, v = w ++ ['\n']) := by
  have hcs' : text ++ tail = (u ++ ['\n']) ++ ys := by simp [hcs]
  obtain ⟨v, hv, rfl⟩ | ⟨v, hv, rfl⟩ := List.append_eq_append_iff.mp hcs'
  · refine ⟨v, hv, rfl, ?_⟩
    obtain rfl | ⟨w, c, rfl⟩ := v.eq_nil_or_concat
    · rw [List.append_nil] at hv
      rw [← hv] at h ⊢
      exact ⟨reads_of_ends_line h, .inl rfl⟩
    · rw [List.concat_eq_append, ← List.append_assoc] at hv
      obtain ⟨-, hc⟩ := List.append_inj' hv rfl
      obtain rfl : '\n' = c := by simpa using hc
      rw [List.concat_eq_append] at h ⊢
      refine ⟨h.of_firstLine ?_, .inr ⟨w, rfl⟩⟩
      rw [List.append_assoc]
      exact (firstLine_append_break w ys).trans (firstLine_append_break w []).symm
  · by_cases hn : v = []
    · subst hn
      rw [List.append_nil] at hv
      refine ⟨[], by simp [hv], by simp, ?_, .inl rfl⟩
      rw [hv] at h ⊢
      exact reads_of_ends_line h
    · exact absurd hr (region_run_line_of_reads h hs (by simp [hv]) hn)

/-- A run of the lexer is two runs, one after the other, if the text is cut after a line at which a
scan is in code. -/
theorem lexes_split {p q : Position} {cs xs ys : List Char} {ts : List Token}
    (h : Lexes p cs ts q []) (hcs : cs = xs ++ ys) (hx : xs = [] ∨ ∃ u, xs = u ++ ['\n'])
    (hs : s.Between cs) (hr : (s.run xs).region = .code) :
    ∃ ts₁ ts₂ m, ts = ts₁ ++ ts₂ ∧ Lexes p xs ts₁ m [] ∧ Lexes m ys ts₂ q [] := by
  generalize hrest : ([] : List Char) = rest at h
  induction h generalizing s xs with
  | @done p rest =>
    subst hrest
    obtain ⟨rfl, rfl⟩ := List.append_eq_nil_iff.mp hcs.symm
    exact ⟨[], [], p, rfl, .done, .done⟩
  | @skip p text tail ts q rest hread hl ih =>
    obtain rfl | ⟨u, rfl⟩ := hx
    · subst hrest
      rw [List.nil_append] at hcs
      exact ⟨[], ts, p, rfl, .done, hcs ▸ .skip hread hl⟩
    · obtain ⟨v, hv, rfl, hread', hend⟩ :=
        reads_of_line_in_code hread hs (by simpa using hcs) hr
      have hb := (between_of_trivia hread hs).1
      rw [hv, Scan.run_append] at hr
      obtain ⟨ts₁, ts₂, m, rfl, h₁, h₂⟩ := ih rfl hend hb hr hrest
      rw [hv]
      exact ⟨ts₁, ts₂, m, rfl, .skip hread' h₁, h₂⟩
  | @token p text tail kind value ts q rest hread hblank hl ih =>
    obtain rfl | ⟨u, rfl⟩ := hx
    · subst hrest
      rw [List.nil_append] at hcs
      exact ⟨[], _, p, rfl, .done, hcs ▸ .token hread hblank hl⟩
    · obtain ⟨v, hv, rfl, hread', hend⟩ :=
        reads_of_line_in_code hread hs (by simpa using hcs) hr
      have hb := (counted_of_reads hread hblank hs).2
      rw [hv, Scan.run_append] at hr
      obtain ⟨ts₁, ts₂, m, rfl, h₁, h₂⟩ := ih rfl hend hb hr hrest
      rw [hv]
      exact ⟨_ :: ts₁, ts₂, m, rfl, .token hread' hblank h₁, h₂⟩

end

end FormulaShell.Script
