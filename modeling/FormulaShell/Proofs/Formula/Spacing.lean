import FormulaShell.Proofs.Formula.Contents
import Mathlib.Data.List.Induction

namespace FormulaShell.Text

def placeAfter (cs : List Char) : Position where
  offset := (String.ofList cs).utf8ByteSize
  line := 1 + cs.count '\n'
  column := 1 + (cs.reverse.takeWhile (· != '\n')).length

theorem placeAfter_append_singleton (cs : List Char) (c : Char) :
    placeAfter (cs ++ [c]) = (placeAfter cs).advance c := by
  have hsize : (String.ofList (cs ++ [c])).utf8ByteSize =
      (String.ofList cs).utf8ByteSize + c.utf8Size := by
    rw [String.ofList_append, String.utf8ByteSize_append, String.ofList_cons,
      String.utf8ByteSize_append, String.utf8ByteSize_singleton]
    rfl
  rw [placeAfter, hsize]
  by_cases hc : c = '\n'
  · subst hc
    simp [placeAfter, Position.advance, Nat.add_assoc]
  · simp [placeAfter, Position.advance, hc, Nat.add_comm]

theorem advanceAll_start (cs : List Char) : Position.start.advanceAll cs = placeAfter cs := by
  induction cs using List.reverseRecOn with
  | nil => rfl
  | append_singleton cs c ih =>
    rw [Position.advanceAll_append, ih, placeAfter_append_singleton]
    rfl

end FormulaShell.Text

namespace FormulaShell.Formula

open FormulaShell.Text

section

variable {xs ys : List Char}

theorem digitCount_of_le (h : digitCount (xs ++ ys) ≤ xs.length) :
    digitCount (xs ++ ys) = digitCount xs := by
  rw [digitCount, List.takeWhile_append] at h ⊢
  split at h
  next hall =>
    rw [List.length_append] at h
    rw [if_pos hall, List.length_append, digitCount, hall]
    omega
  next hall => rw [if_neg hall, digitCount]

theorem fractionLength_of_le (h : fractionLength (xs ++ ys) ≤ xs.length) :
    fractionLength (xs ++ ys) = fractionLength xs := by
  cases xs with
  | nil => exact Nat.le_zero.mp h
  | cons c xs =>
    by_cases hc : c = '.'
    · subst hc
      simp only [List.cons_append, fractionLength, List.length_cons] at h ⊢
      have hd : digitCount (xs ++ ys) = digitCount xs := digitCount_of_le (by split at h <;> omega)
      rw [hd]
    · simp [fractionLength, hc]

def signLength : List Char → Nat
  | '+' :: _ => 1
  | '-' :: _ => 1
  | _ => 0

theorem exponentLength_mark {c : Char} (hc : c = 'e' ∨ c = 'E') (cs : List Char) :
    exponentLength (c :: cs) =
      if digitCount (cs.drop (signLength cs)) = 0 then 0
      else 1 + signLength cs + digitCount (cs.drop (signLength cs)) := by
  unfold exponentLength
  simp only [if_pos hc]
  rfl

theorem signLength_append (c : Char) (cs ys : List Char) :
    signLength (c :: cs ++ ys) = signLength (c :: cs) ∧ signLength (c :: cs) ≤ 1 := by
  rw [List.cons_append]
  unfold signLength
  split <;> simp_all

theorem exponentLength_of_le (h : exponentLength (xs ++ ys) ≤ xs.length) :
    exponentLength (xs ++ ys) = exponentLength xs := by
  cases xs with
  | nil => exact Nat.le_zero.mp h
  | cons c xs =>
    by_cases hc : c = 'e' ∨ c = 'E'
    · rw [List.cons_append, exponentLength_mark hc] at h ⊢
      cases xs with
      | nil =>
        -- an exponent has a digit after its mark
        have hzero : digitCount (ys.drop (signLength ys)) = 0 := by
          rw [List.nil_append, List.length_singleton] at h
          split at h <;> omega
        rw [List.nil_append, if_pos hzero]
        simp [exponentLength, digitCount]
      | cons d xs =>
        obtain ⟨hsign, hle⟩ := signLength_append d xs ys
        rw [hsign, List.drop_append_of_le_length (by rw [List.length_cons]; omega)] at h ⊢
        have hd : digitCount ((d :: xs).drop (signLength (d :: xs)) ++ ys) =
            digitCount ((d :: xs).drop (signLength (d :: xs))) := by
          refine digitCount_of_le ?_
          rw [List.length_drop]
          split at h
          next hzero => omega
          next => rw [List.length_cons] at h; omega
        rw [hd, exponentLength_mark hc]
    · simp [exponentLength, hc]

end

theorem numberLength_of_append {cs rest : List Char}
    (h : numberLength (cs ++ rest) = cs.length) : numberLength cs = cs.length := by
  rw [← h]
  simp only [numberLength] at h ⊢
  have hw : digitCount (cs ++ rest) = digitCount cs := digitCount_of_le (by omega)
  rw [hw] at h ⊢
  rw [List.drop_append_of_le_length (by omega)] at h ⊢
  have hf : fractionLength (cs.drop (digitCount cs) ++ rest) =
      fractionLength (cs.drop (digitCount cs)) :=
    fractionLength_of_le (by rw [List.length_drop]; omega)
  rw [hf] at h ⊢
  rw [List.drop_append_of_le_length (by omega)] at h ⊢
  rw [exponentLength_of_le (by rw [List.length_drop]; omega)]

theorem Reads.alone {text rest : List Char} {token : TokenKind × String}
    (h : Reads text rest (some token)) : Reads text [] (some token) := by
  generalize ht : some token = t at h
  cases h with
  | blank | lineComment | blockComment => cases ht
  | pair hk => exact .pair hk
  | symbol hk => exact .symbol hk (by simp) (by simp)
  | string => exact .string (by simp)
  | quotedName hb => exact .quotedName hb (by simp)
  | number hc hn => exact .number hc (by rw [List.append_nil, numberLength_of_append hn])
  | word hc hcs => exact .word hc hcs (by simp)

theorem commentLength?_split {cs : List Char} {n : Nat} (h : commentLength? cs = some n) :
    ∃ body, cs.take n = body ++ ['*', '/'] ∧ ¬ ['*', '/'] <:+: body ++ ['*'] := by
  induction cs generalizing n with
  | nil => simp [commentLength?] at h
  | cons c rest ih =>
    rw [commentLength?] at h
    split at h
    next hc =>
      obtain ⟨rfl, hd⟩ := hc
      obtain ⟨tail, rfl⟩ := List.head?_eq_some_iff.mp hd
      cases h
      exact ⟨[], rfl, fun hi => absurd hi.length_le (by simp)⟩
    next hc =>
      obtain ⟨k, hk, rfl⟩ := Option.map_eq_some_iff.mp h
      obtain ⟨body, hbody, hi⟩ := ih hk
      refine ⟨c :: body, by rw [List.take_succ_cons, hbody]; rfl, fun hinfix => ?_⟩
      obtain hprefix | hinfix := List.infix_cons_iff.mp hinfix
      · -- the mark would be at the start
        have hrest : rest = body ++ ['*', '/'] ++ rest.drop k := by
          rw [← hbody, List.take_append_drop]
        obtain ⟨after, hafter⟩ := hprefix
        cases body with
        | nil => simp at hafter
        | cons b body =>
          simp only [List.cons_append, List.nil_append, List.cons.injEq] at hafter
          obtain ⟨rfl, rfl, -⟩ := hafter
          exact hc ⟨rfl, by rw [hrest]; rfl⟩
      · exact hi hinfix

/-- White space or a comment that is complete, with the line break of a line comment. -/
inductive Separator : List Char → Prop where
  | blank {c : Char} : isBlank c → Separator [c]
  | lineComment {body : List Char} : '\n' ∉ body → Separator ('/' :: '/' :: (body ++ ['\n']))
  | blockComment {body : List Char} : ¬ ['*', '/'] <:+: body ++ ['*'] →
      Separator ('/' :: '*' :: (body ++ ['*', '/']))

/-- White space and comments before the rest of a text. The end of the text ends a line comment
as well. -/
inductive Trivia : List Char → List Char → Prop where
  | nil {rest : List Char} : Trivia rest []
  | cons {rest s cs : List Char} : Separator s → Trivia rest cs → Trivia rest (s ++ cs)
  | last {body : List Char} : '\n' ∉ body → Trivia [] ('/' :: '/' :: body)

theorem Trivia.skip {text lead rest : List Char} (h : Trivia rest lead)
    (hr : Reads text (lead ++ rest) none) (hhead : ∀ c ∈ rest.head?, isBlank c = false) :
    Trivia rest (text ++ lead) := by
  generalize ht : (none : Option (TokenKind × String)) = token at hr
  cases hr with
  | blank hb => exact .cons (.blank hb) h
  | @lineComment body _ hbody hend =>
    cases h with
    | nil =>
      cases rest with
      | nil =>
        rw [List.append_nil]
        exact .last hbody
      | cons c rest =>
        obtain rfl : c = '\n' := hend c rfl
        exact absurd (hhead _ rfl) (by decide)
    | @cons _ s cs hs hcs =>
      cases hs with
      | @blank c hb =>
        obtain rfl : c = '\n' := hend c rfl
        have hline := Trivia.cons (.lineComment hbody) hcs
        simpa using hline
      | lineComment | blockComment => exact absurd (hend '/' rfl) (by decide)
    | last => exact absurd (hend '/' rfl) (by decide)
  | @blockComment body _ hl =>
    obtain ⟨inner, hsplit, hinfix⟩ := commentLength?_split hl
    rw [List.take_left] at hsplit
    subst hsplit
    exact .cons (.blockComment hinfix) h
  | _ => cases ht

/-- A token as it stands in a text, with what comes between it and the next one. -/
structure Piece where
  token : Token
  spelling : List Char
  gap : List Char

namespace Piece

def text (x : Piece) : List Char := x.spelling ++ x.gap

def textOf (xs : List Piece) : List Char := xs.flatMap text

def spaced (xs : List Piece) : List Char := [' '].intercalate (xs.map spelling)

/-- A piece that can stand at a place, before some text. -/
structure Fits (p : Position) (rest : List Char) (x : Piece) : Prop where
  start : x.token.start = p
  reads : Reads x.spelling (x.gap ++ rest) (some x.token.content)
  solid : ∀ c ∈ x.spelling.head?, isBlank c = false
  gap : Trivia rest x.gap

inductive Row : Position → List Piece → Prop where
  | nil {p : Position} : Row p []
  | cons {p : Position} {x : Piece} {xs : List Piece} : Fits p (textOf xs) x →
      Row (p.advanceAll x.text) xs → Row p (x :: xs)

variable {p q : Position} {xs : List Piece}

theorem Row.solid (h : Row p xs) : ∀ c ∈ (textOf xs).head?, isBlank c = false := by
  cases h with
  | nil => simp [textOf]
  | @cons _ x xs hx _ =>
    obtain ⟨c, cs, hs⟩ := List.exists_cons_of_ne_nil (ne_nil_of_reads hx.reads)
    have hsolid := hx.solid
    simpa [textOf, text, hs] using hsolid

theorem exists_row {cs : List Char} {ts : List Token} (h : Lexes p cs ts q []) :
    ∃ lead xs, cs = lead ++ textOf xs ∧ Trivia (textOf xs) lead ∧
      Row (p.advanceAll lead) xs ∧ xs.map token = ts ∧ q = p.advanceAll cs := by
  generalize hrest : ([] : List Char) = rest at h
  induction h with
  | @done p rest =>
    subst hrest
    exact ⟨[], [], rfl, .nil, .nil, rfl, rfl⟩
  | @skip p text tail ts q rest hr _ ih =>
    obtain ⟨lead, xs, rfl, hlead, hxs, hts, rfl⟩ := ih hrest
    refine ⟨text ++ lead, xs, by simp, hlead.skip hr hxs.solid, ?_, hts, ?_⟩
    · rwa [Position.advanceAll_append]
    · rw [← Position.advanceAll_append]
  | @token p text tail kind value ts q rest hr hb _ ih =>
    obtain ⟨lead, xs, rfl, hlead, hxs, hts, rfl⟩ := ih hrest
    have hfits : Fits p (textOf xs) ⟨⟨kind, value, p⟩, text, lead⟩ := ⟨rfl, hr, hb, hlead⟩
    refine ⟨[], _ :: xs, ?_, .nil, .cons hfits ?_, congrArg _ hts, ?_⟩
    · simp [textOf, Piece.text]
    · rwa [Piece.text, Position.advanceAll_append]
    · rw [← Position.advanceAll_append]

theorem Row.fits {us vs : List Piece} {x : Piece} (h : Row p (us ++ x :: vs)) :
    Fits (p.advanceAll (textOf us)) (textOf vs) x := by
  induction us generalizing p with
  | nil =>
    cases h with
    | cons hx _ => exact hx
  | cons u us ih =>
    cases h with
    | cons _ h =>
      have hfits := ih h
      rwa [← Position.advanceAll_append] at hfits

theorem Fits.alone {rest : List Char} {x : Piece} (h : Fits p rest x) :
    lex (String.ofList x.spelling) =
      .ok ⟨[{ x.token with start := .start }], placeAfter x.spelling⟩ := by
  rw [← advanceAll_start]
  have hrun : Lexes .start (x.spelling ++ []) [{ x.token with start := .start }]
      (Position.start.advanceAll x.spelling) [] := .token h.reads.alone h.solid .done
  rw [List.append_nil] at hrun
  refine lex_of_lexes ?_
  rwa [String.toList_ofList]

theorem Fits.contentsOf_blank {rest : List Char} {x : Piece} (h : Fits p rest x) (cs : List Char) :
    contentsOf (x.spelling ++ ' ' :: cs) = (contentsOf cs).map (x.token.content :: ·) := by
  have hread := h.reads.alone.append_stop (isStop_of_isBlank (show isBlank ' ' by decide)) cs
    fun _ ⟨body, hbody⟩ => by
      have hnone := (reads_slashes (hbody ▸ h.reads)).2
      cases hnone
  rw [List.nil_append] at hread
  rw [contentsOf_reads hread, Formula.contentsOf_blank (by decide)]
  rfl

theorem Row.contentsOf_spaced (h : Row p xs) :
    contentsOf (spaced xs) = some (xs.map fun x => x.token.content) := by
  induction h with
  | nil => exact contentsOf_nil
  | @cons p x xs hx _ ih =>
    cases xs with
    | nil =>
      have hread := contentsOf_reads hx.reads.alone
      rw [List.append_nil] at hread
      simpa [spaced] using hread
    | cons y ys =>
      have hspaced : spaced (x :: y :: ys) = x.spelling ++ ' ' :: spaced (y :: ys) := by
        simp [spaced, List.intercalate_cons_cons]
      rw [hspaced, hx.contentsOf_blank, ih]
      rfl

/-- A text is the spellings of its tokens with trivia around them. -/
structure Compose (source : String) (ts : Tokens) (lead : List Char) (xs : List Piece) : Prop where
  joined : source.toList = lead ++ textOf xs
  tokens : xs.map token = ts.list
  opening : Trivia (textOf xs) lead
  gaps : ∀ us x vs, xs = us ++ x :: vs → Trivia (textOf vs) x.gap
  places : ∀ us x vs, xs = us ++ x :: vs → x.token.start = placeAfter (lead ++ textOf us)
  finish : ts.eof.start = placeAfter source.toList
  finish_offset : ts.eof.start.offset = source.utf8ByteSize
  /-- Each spelling is its token also when it is the whole text. -/
  alone : ∀ x ∈ xs, lex (String.ofList x.spelling) =
    .ok ⟨[{ x.token with start := .start }], placeAfter x.spelling⟩
  apart : contents? (String.ofList (spaced xs)) = some (ts.list.map Token.content)

end Piece

/-- Lexing loses nothing: a text that lexes is the spellings of its tokens with trivia around
them. -/
theorem lex_pieces (source : String) (ts : Tokens) (h : lex source = .ok ts) :
    ∃ lead xs, Piece.Compose source ts lead xs := by
  obtain ⟨lead, xs, hsource, hlead, hrow, hts, hstop⟩ :=
    Piece.exists_row (lexes_of_lexFrom (lexFrom_of_lex h))
  have hend : ts.eof.start = placeAfter source.toList := hstop.trans (advanceAll_start _)
  refine ⟨lead, xs, hsource, hts, hlead, ?_, ?_, hend, ?_, ?_, ?_⟩
  · rintro us x vs rfl
    exact hrow.fits.gap
  · rintro us x vs rfl
    rw [hrow.fits.start, ← Position.advanceAll_append, advanceAll_start]
  · rw [hend, placeAfter, String.ofList_toList]
  · intro x hx
    obtain ⟨us, vs, rfl⟩ := List.append_of_mem hx
    exact hrow.fits.alone
  · rw [contents?_ofList, hrow.contentsOf_spaced, ← hts, List.map_map]
    rfl

def crampedText : String := "/* α */ f(1.5e, \"a\"\"/*\")// é\n/'b c'<>2 // end"

theorem crampedText_pieces : ∃ ts, lex crampedText = .ok ts ∧
    ts.list.map (·.start) = [⟨9, 1, 9⟩, ⟨10, 1, 10⟩, ⟨11, 1, 11⟩, ⟨14, 1, 14⟩, ⟨15, 1, 15⟩,
      ⟨17, 1, 17⟩, ⟨24, 1, 24⟩, ⟨31, 2, 1⟩, ⟨32, 2, 2⟩, ⟨37, 2, 7⟩, ⟨39, 2, 9⟩] ∧
    ∃ lead xs, Piece.Compose crampedText ts lead xs := by
  cases h : lex crampedText with
  | error e =>
    have hok : (lex crampedText).isOk := by decide +kernel
    rw [h] at hok
    cases hok
  | ok ts =>
    have hstarts : (lex crampedText).toOption.map (fun ts => ts.list.map (·.start)) =
        some [⟨9, 1, 9⟩, ⟨10, 1, 10⟩, ⟨11, 1, 11⟩, ⟨14, 1, 14⟩, ⟨15, 1, 15⟩,
          ⟨17, 1, 17⟩, ⟨24, 1, 24⟩, ⟨31, 2, 1⟩, ⟨32, 2, 2⟩, ⟨37, 2, 7⟩, ⟨39, 2, 9⟩] := by
      decide +kernel
    rw [h] at hstarts
    exact ⟨ts, rfl, Option.some.inj hstarts, lex_pieces crampedText ts h⟩

end FormulaShell.Formula
