import FormulaShell.Proofs.Formula.Blame
import FormulaShell.Proofs.Formula.Mentions
import FormulaShell.Proofs.Formula.Reading
import FormulaShell.Proofs.Text.Spot

namespace FormulaShell.Formula

open FormulaShell.Text

section

variable {p q : Position} {cs rest : List Char} {ts : List Token}

theorem Lexes.exists_append (h : Lexes p cs ts q rest) :
    ∃ before, cs = before ++ rest ∧ q = p.advanceAll before := by
  induction h with
  | done => exact ⟨[], rfl, rfl⟩
  | skip _ _ ih | token _ _ _ ih =>
    obtain ⟨before, rfl, rfl⟩ := ih
    exact ⟨_, (List.append_assoc ..).symm, (Position.advanceAll_append ..).symm⟩

theorem Lexes.exists_before (h : Lexes p cs ts q rest) {t : Token} (ht : t ∈ ts) :
    ∃ before after, cs = before ++ after ∧ t.start = p.advanceAll before := by
  induction h with
  | done => cases ht
  | skip _ _ ih =>
    obtain ⟨before, after, rfl, hstart⟩ := ih ht
    exact ⟨_, after, (List.append_assoc ..).symm, by rw [hstart, Position.advanceAll_append]⟩
  | token _ _ _ ih =>
    obtain rfl | ht := List.mem_cons.mp ht
    · exact ⟨[], _, rfl, rfl⟩
    · obtain ⟨before, after, rfl, hstart⟩ := ih ht
      exact ⟨_, after, (List.append_assoc ..).symm, by rw [hstart, Position.advanceAll_append]⟩

end

theorem exists_spot {source : String} {before after : List Char} {p : Position}
    (h : source.toList = before ++ after) (hp : p = Position.start.advanceAll before) :
    ∃ spot : Spot source, spot.position = p ∧ spot.right ++ spot.below = after := by
  obtain ⟨spot, hbefore, hafter⟩ := Spot.exists_of_append h
  exact ⟨spot, by rw [spot.position_eq, hbefore, hp, advanceAll_start], hafter⟩

theorem exists_spot_of_token {source : String} {ts : Tokens} {t : Token} (h : lex source = .ok ts)
    (ht : t ∈ ts.eof :: ts.list) : ∃ spot : Spot source, spot.position = t.start := by
  have hrun := lexes_of_lexFrom (lexFrom_of_lex h)
  obtain rfl | ht := List.mem_cons.mp ht
  · obtain ⟨before, hsource, hstop⟩ := hrun.exists_append
    obtain ⟨spot, hspot, -⟩ := exists_spot hsource hstop
    exact ⟨spot, hspot⟩
  · obtain ⟨before, after, hsource, hstart⟩ := hrun.exists_before ht
    obtain ⟨spot, hspot, -⟩ := exists_spot hsource hstart
    exact ⟨spot, hspot⟩

theorem exists_spot_of_fault {source : String} {e : LexError} (h : lex source = .error e) :
    ∃ spot : Spot source, spot.position = e.start ∧ spot.right ≠ [] ∧ spot.line = e.line := by
  obtain ⟨ts, c, rest, hrun, hfault⟩ := lexes_of_lexFrom_error (lexFrom_of_lex_error h)
  obtain ⟨before, hsource, hstart⟩ := hrun.exists_append
  obtain ⟨spot, hspot, hright⟩ := exists_spot hsource hstart
  refine ⟨spot, hspot, fun hnil => ?_, ?_⟩
  · rw [hnil, List.nil_append] at hright
    obtain rfl : c = '\n' := spot.below_starts c (by rw [hright]; rfl)
    cases hfault
  · unfold lex at h
    split at h
    next => cases h
    next fault p hp =>
      cases h
      rw [Spot.line, ← spot.lineText_eq, hspot]

/-- A diagnostic at a place of the text. The offset is where a character starts, or the end of the
text. -/
structure PointsTo {source : String} (spot : Spot source) (d : Diagnostic) : Prop where
  offset : d.offset = some spot.position.offset
  line : d.line = some spot.position.line
  column : d.column = some spot.position.column
  boundary : (⟨spot.position.offset⟩ : String.Pos.Raw).IsValid source

/-- A diagnostic that shows the line of the place, with a caret under the character at the place. -/
structure ShowsLine {source : String} (spot : Spot source) (d : Diagnostic) : Prop where
  snippet : d.snippet = some spot.line
  excerpt : d.excerpt = "\n" ++ spot.line ++ "\n" ++
    String.ofList (List.replicate spot.left.length ' ' ++ ['^'])
  /-- There is a character in the line at the place. -/
  solid : spot.right ≠ []

def ReadError.start : ReadError → Position
  | lex e => e.start
  | parse e => e.start

theorem pointsTo_diagnostic {source : String} {spot : Spot source} {e : ReadError}
    (h : spot.position = e.start) : PointsTo spot e.diagnostic where
  offset := by rw [h]; cases e <;> rfl
  line := by rw [h]; cases e <;> rfl
  column := by rw [h]; cases e <;> rfl
  boundary := spot.isValid_offset

theorem showsLine_diagnostic {source : String} {spot : Spot source} {e : LexError}
    (h : spot.position = e.start) (hright : spot.right ≠ []) (hline : spot.line = e.line) :
    ShowsLine spot (ReadError.lex e).diagnostic where
  snippet := by rw [hline]; rfl
  excerpt := by
    have hcaret : Diagnostic.caret e.start.column =
        String.ofList (List.replicate spot.left.length ' ' ++ ['^']) := by
      rw [← h, Spot.position, Diagnostic.caret, Nat.add_sub_cancel_left]
    rw [← hcaret, hline]
    rfl
  solid := hright

section

variable {α : Type} {source : String} {parse : Tokens → Except ParseError α} {e : ReadError}

theorem read_ok {a : α} (h : (do
    let ts ← tokens source
    (parse ts).mapError ReadError.parse) = .ok a) :
    ∃ ts, lex source = .ok ts ∧ parse ts = .ok a := by
  rw [tokens] at h
  cases hts : lex source with
  | error f =>
    rw [hts] at h
    cases h
  | ok ts =>
    rw [hts] at h
    exact ⟨ts, rfl, mapError_eq_ok.mp h⟩

theorem exists_spot_of_read_error
    (hparse : ∀ ts f, parse ts = .error f → Blames ts.eof ts.list f)
    (h : (do
      let ts ← tokens source
      (parse ts).mapError ReadError.parse) = .error e) :
    ∃ spot : Spot source, PointsTo spot e.diagnostic ∧
      ∀ f, e = .lex f → ShowsLine spot e.diagnostic := by
  rw [tokens] at h
  cases hts : lex source with
  | error f =>
    rw [hts] at h
    cases h
    obtain ⟨spot, hspot, hright, hline⟩ := exists_spot_of_fault hts
    exact ⟨spot, pointsTo_diagnostic hspot, fun _ _ => showsLine_diagnostic hspot hright hline⟩
  | ok ts =>
    rw [hts] at h
    cases hp : parse ts with
    | ok a =>
      replace h : (parse ts).mapError ReadError.parse = .error e := h
      rw [hp] at h
      cases h
    | error f =>
      replace h : (parse ts).mapError ReadError.parse = .error e := h
      rw [hp] at h
      cases h
      obtain ⟨t, ht, hstart⟩ := hparse ts f hp
      obtain ⟨spot, hspot⟩ := exists_spot_of_token hts ht
      exact ⟨spot, pointsTo_diagnostic (hspot.trans hstart.symm), nofun⟩

end

/-- The fault is reported at a token of the text that is the name it is about. -/
def PointsToName (source : String) (c : CheckError) : Prop :=
  ∃ ts t, lex source = .ok ts ∧ t ∈ ts.list ∧ t.kind = .name ∧ t.value = c.name ∧
    c.diagnostic.offset = some t.start.offset

theorem pointsToName_of_check {source : String} {ts : Tokens} {scope : Scope} {names : Bool}
    {e : Expr} {c : CheckError} (hts : lex source = .ok ts)
    (he : e.mentions.Sublist (namesOf ts.list)) (hc : check scope names e = .error c) :
    PointsToName source c := by
  obtain ⟨t, ht, hmention⟩ := List.mem_filterMap.mp (he.subset (mem_mentions_of_check hc))
  rw [Token.mention?] at hmention
  split at hmention
  next hkind =>
    simp only [Option.some.injEq, Prod.mk.injEq] at hmention
    refine ⟨ts, t, hts, ht, hkind, hmention.1, ?_⟩
    rw [hmention.2]
    cases c <;> rfl
  next => cases hmention

/-- What reading a text reports is at a place of the text, and what the lexer reports is shown with
the line of the place. What a check of the result reports is at the name that it is about. -/
theorem diagnostics_in_place (source : String) :
    (∀ e, readFormula source = .error e ∨ readDefinitions source = .error e →
      ∃ spot : Spot source, PointsTo spot e.diagnostic ∧
        ∀ f, e = .lex f → ShowsLine spot e.diagnostic) ∧
    (∀ e scope names c, readFormula source = .ok e → check scope names e = .error c →
      PointsToName source c) ∧
    (∀ fs scope names c, readDefinitions source = .ok fs →
      (∃ f ∈ fs, check scope names f.body = .error c) → PointsToName source c) := by
  refine ⟨?_, fun e scope names c he hc => ?_, ?_⟩
  · rintro e (he | he)
    · exact exists_spot_of_read_error (fun _ _ => blames_formula) he
    · exact exists_spot_of_read_error (fun _ _ => blames_definitions) he
  · obtain ⟨ts, hts, hformula⟩ := read_ok he
    obtain ⟨d, hd, rfl, -⟩ := formula_sound hformula
    refine pointsToName_of_check hts ?_ hc
    rw [Expr.mentions_inSequence, ← hd]
    exact d.mentions_sublist
  · rintro fs scope names c hfs ⟨f, hf, hc⟩
    obtain ⟨ts, hts, hdefinitions⟩ := read_ok hfs
    obtain ⟨d, hd, rfl, -⟩ := definitions_sound hdefinitions
    refine pointsToName_of_check hts ?_ hc
    rw [← hd]
    exact d.mentions_sublist f hf

def errorText? {α : Type} : Except ReadError α → Option String
  | .error e => some e.diagnostic.text
  | .ok _ => none

theorem exists_error {α : Type} {x : Except ReadError α} {text : String}
    (h : errorText? x = some text) : ∃ e, x = .error e ∧ e.diagnostic.text = text := by
  cases x with
  | error e => exact ⟨e, rfl, Option.some.inj h⟩
  | ok a => cases h

def strayText : String := "\"é\" &\n  # 1"

/-- Also a formula that ends on an empty line, and a name in quotes that is not known. -/
theorem diagnostics_strayText :
    (∃ e, readFormula strayText = .error e ∧
      e.diagnostic.text = "[LEX090] Unexpected character '#'. @line=2,col=3\n  # 1\n  ^" ∧
      ∃ spot : Spot strayText, PointsTo spot e.diagnostic ∧
        ∀ f, e = .lex f → ShowsLine spot e.diagnostic) ∧
    (∃ e, readFormula "1 +\n" = .error e ∧
      e.diagnostic.text = "[PAR030] Expected an expression. @line=2,col=1" ∧
      ∃ spot : Spot "1 +\n", PointsTo spot e.diagnostic ∧
        ∀ f, e = .lex f → ShowsLine spot e.diagnostic) ∧
    (∃ e c, readFormula "-'b c'" = .ok e ∧
      check ⟨fun _ => false, fun _ => none⟩ true e = .error c ∧
      c.diagnostic.text = "[CHK001] Name isn't valid. 'b c' isn't recognized. @pos=1" ∧
      PointsToName "-'b c'" c) := by
  obtain ⟨e, he, htext⟩ := exists_error (by decide +kernel : errorText? (readFormula strayText) =
    some "[LEX090] Unexpected character '#'. @line=2,col=3\n  # 1\n  ^")
  obtain ⟨f, hf, hend⟩ := exists_error (by decide +kernel : errorText? (readFormula "1 +\n") =
    some "[PAR030] Expected an expression. @line=2,col=1")
  refine ⟨⟨e, he, htext, (diagnostics_in_place _).1 e (.inl he)⟩,
    ⟨f, hf, hend, (diagnostics_in_place _).1 f (.inl hf)⟩, ?_⟩
  have hcheck : (readFormula "-'b c'").toOption.map (check ⟨fun _ => false, fun _ => none⟩ true) =
      some (.error (.unknownName "b c" 1)) := by decide +kernel
  cases hread : readFormula "-'b c'" with
  | error e =>
    rw [hread] at hcheck
    cases hcheck
  | ok e =>
    rw [hread] at hcheck
    have hc := Option.some.inj hcheck
    exact ⟨e, _, rfl, hc, by decide, (diagnostics_in_place _).2.1 e _ _ _ hread hc⟩

end FormulaShell.Formula
