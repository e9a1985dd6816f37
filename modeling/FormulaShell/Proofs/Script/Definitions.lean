import FormulaShell.Proofs.Formula.Relocation
import FormulaShell.Proofs.Script.Classification

namespace FormulaShell.Script

open FormulaShell.Text FormulaShell.Formula

def beginsBody (kind : TokenKind) : Bool := kind == .equal || kind == .leftBrace

/-- Before the first equals sign or brace there are only blanks, and tokens that are no quoted
names. -/
def bareHead : List Char → Bool
  | [] => true
  | c :: cs =>
    match lexeme c cs with
    | .error _ => true
    | .ok l =>
      l.token.any (fun t => beginsBody t.1) ||
        (isBlank c || l.token.isSome && c != '\'') && bareHead (cs.drop l.more)
termination_by cs => cs.length
decreasing_by simp only [List.length_drop, List.length_cons]; omega

theorem bareHead_cons {c : Char} {cs : List Char} {l : Lexeme} (h : lexeme c cs = .ok l) :
    bareHead (c :: cs) = (l.token.any (fun t => beginsBody t.1) ||
      (isBlank c || l.token.isSome && c != '\'') && bareHead (cs.drop l.more)) := by
  rw [bareHead.eq_def]
  simp only [h]

theorem bareHead_blank {b : Char} (hb : isBlank b) (cs : List Char) :
    bareHead (b :: cs) = bareHead cs := by
  have hl : lexeme b cs = .ok ⟨0, none⟩ := by rw [lexeme, if_pos hb]
  rw [bareHead_cons hl]
  simp [hb]

theorem bareHead_reads {c : Char} {tail rest : List Char} {token : Option (TokenKind × String)}
    (h : Reads (c :: tail) rest token) :
    bareHead (c :: tail ++ rest) = (token.any (fun t => beginsBody t.1) ||
      (isBlank c || token.isSome && c != '\'') && bareHead rest) := by
  rw [List.cons_append, bareHead_cons (lexeme_of_reads h), List.drop_left]

theorem bareHead_slashes (cs : List Char) : bareHead ('/' :: '/' :: cs) = false := by
  have hl : lexeme '/' ('/' :: cs) =
      .ok ⟨(('/' :: cs).takeWhile (· != '\n')).length, none⟩ := by
    rw [lexeme, if_neg (by decide), if_pos ⟨rfl, rfl⟩]
  rw [bareHead_cons hl]
  rfl

theorem bareHead_of_append {b : Char} (hb : isBlank b) {cs w : List Char}
    (hlex : contentsOf cs ≠ none) (h : bareHead (cs ++ b :: w) = true) : bareHead cs = true := by
  induction hn : cs.length using Nat.strongRecOn generalizing cs with
  | _ n ih =>
    subst hn
    cases cs with
    | nil => rw [bareHead.eq_def]
    | cons c cs =>
      cases hl : lexeme c cs with
      | error fault => exact absurd (contentsOf_error hl) hlex
      | ok l =>
        obtain ⟨tail, rest, rfl, -, hread, -⟩ := lexeme_reads hl
        rw [← List.cons_append] at h hlex ⊢
        have hread' : Reads (c :: tail) (rest ++ b :: w) l.token := by
          refine hread.append_stop (isStop_of_isBlank hb) w fun _ hline => ?_
          obtain ⟨body, htext⟩ := hline
          rw [htext] at h
          exact absurd h (by rw [List.append_assoc, List.cons_append, List.cons_append,
            bareHead_slashes]; decide)
        rw [List.append_assoc, bareHead_reads hread', Bool.or_eq_true, Bool.and_eq_true] at h
        rw [bareHead_reads hread, Bool.or_eq_true, Bool.and_eq_true]
        refine h.imp_right fun hrest => ⟨hrest.1, ih rest.length ?_ ?_ hrest.2 rfl⟩
        · rw [List.length_cons, List.length_append]
          omega
        · intro hnone
          rw [contentsOf_reads hread, hnone] at hlex
          exact hlex rfl

theorem bareHead_trimStart (cs : List Char) : bareHead (trimStart cs) = bareHead cs := by
  induction cs with
  | nil => rfl
  | cons c cs ih =>
    cases hc : isBlank c with
    | true =>
      rw [bareHead_blank hc, ← ih]
      simp [trimStart, hc]
    | false => simp [trimStart, hc]

theorem bareHead_trim {cs : List Char} (hlex : contentsOf cs ≠ none) (h : bareHead cs = true) :
    bareHead (trim cs) = true := by
  rw [← bareHead_trimStart] at h
  obtain ⟨ws, hw, hcs⟩ := exists_trimEnd (trimStart cs)
  rw [hcs] at h
  cases ws with
  | nil => rwa [List.append_nil] at h
  | cons b w =>
    refine bareHead_of_append (hw b (by simp)) ?_ h
    rwa [contentsOf_trim]

/-- A text with given tokens, of which none is a quoted name up to the body. -/
structure At (xs : List (TokenKind × String)) (cs : List Char) : Prop where
  contents : contentsOf cs = some xs
  bare : bareHead cs = true

section

variable {cs : List Char} {xs : List (TokenKind × String)} {x : TokenKind × String}

theorem At.next (h : At (x :: xs) cs) :
    ∃ text rest, trimStart cs = text ++ rest ∧ Reads text rest (some x) ∧
      (beginsBody x.1 = false → text.head? ≠ some '\'' ∧ At xs rest) := by
  induction cs with
  | nil =>
    have hnil := h.contents
    simp at hnil
  | cons c cs ih =>
    obtain ⟨hcontents, hbare⟩ := h
    cases hc : isBlank c with
    | true =>
      rw [contentsOf_blank hc] at hcontents
      rw [bareHead_blank hc] at hbare
      have htrim : trimStart (c :: cs) = trimStart cs := by simp [trimStart, hc]
      rw [htrim]
      exact ih ⟨hcontents, hbare⟩
    | false =>
      have htrim : trimStart (c :: cs) = c :: cs := by simp [trimStart, hc]
      cases hl : lexeme c cs with
      | error fault =>
        rw [contentsOf_error hl] at hcontents
        cases hcontents
      | ok l =>
        obtain ⟨tail, rest, rfl, -, hread, -⟩ := lexeme_reads hl
        rw [← List.cons_append, contentsOf_reads hread] at hcontents
        rw [← List.cons_append, bareHead_reads hread, hc] at hbare
        cases ht : l.token with
        | none => simp [ht] at hbare
        | some t =>
          rw [ht] at hcontents hbare hread
          obtain ⟨ys, hys, heq⟩ := Option.map_eq_some_iff.mp hcontents
          obtain ⟨rfl, rfl⟩ := List.cons.inj heq
          refine ⟨c :: tail, rest, htrim, hread, fun hx => ?_⟩
          simp only [Option.any_some, hx, Bool.false_or, Option.isSome_some, Bool.true_and,
            Bool.and_eq_true, bne_iff_ne] at hbare
          exact ⟨by simpa using hbare.1, hys, hbare.2⟩

theorem trimStart_of_head? {cs : List Char} (h : ∀ c ∈ cs.head?, isBlank c = false) :
    trimStart cs = cs := by
  cases cs with
  | nil => rfl
  | cons c cs => simp [trimStart, h c rfl]

def headMark? : TokenKind → Option Char
  | .leftParen => some '('
  | .rightParen => some ')'
  | .colon => some ':'
  | .comma => some ','
  | .equal => some '='
  | .leftBrace => some '{'
  | _ => none

theorem headMark?_wordKind (s : String) : headMark? (wordKind s) = none := by
  unfold wordKind
  split_ifs <;> rfl

theorem headMark?_pair {c d : Char} {kind : TokenKind} (h : pairSymbol? c d = some kind) :
    headMark? kind = none := by
  unfold pairSymbol? at h
  split_ifs at h <;> cases h <;> rfl

theorem eq_of_symbol? {c d : Char} {kind : TokenKind} (h : symbol? c = some kind)
    (hd : headMark? kind = some d) : c = d := by
  unfold symbol? at h
  split at h <;> cases h <;> first | exact Option.some.inj hd | cases hd

theorem text_of_headMark? {text rest : List Char} {kind : TokenKind} {value : String} {c : Char}
    (h : Reads text rest (some (kind, value))) (hc : headMark? kind = some c) : text = [c] := by
  generalize ht : some (kind, value) = token at h
  cases h with
  | pair hk =>
    cases ht
    rw [headMark?_pair hk] at hc
    cases hc
  | symbol hk =>
    cases ht
    rw [eq_of_symbol? hk hc]
  | word =>
    cases ht
    rw [headMark?_wordKind] at hc
    cases hc
  | string | quotedName | number =>
    cases ht
    cases hc
  | _ => cases ht

theorem word_of_name {text rest : List Char} {value : String}
    (h : Reads text rest (some (.name, value))) (hq : text.head? ≠ some '\'') :
    text ≠ [] ∧ (∀ c ∈ text, isWordChar c) ∧ ∀ c ∈ rest.head?, isWordChar c = false := by
  generalize ht : some (TokenKind.name, value) = token at h
  cases h with
  | pair hk =>
    cases ht
    exact absurd rfl (pairSymbol?_ne hk).2
  | symbol hk =>
    cases ht
    exact absurd rfl (symbol?_ne hk).2
  | word hc hcs hr =>
    refine ⟨List.cons_ne_nil _ _, fun d hd => ?_, hr⟩
    obtain rfl | hd := List.mem_cons.mp hd
    · exact isWordChar_of_isWordStart hc
    · exact hcs d hd
  | quotedName => exact absurd rfl hq
  | string | number => cases ht
  | _ => cases ht

theorem At.mark {kind : TokenKind} {value : String} {c : Char} (h : At ((kind, value) :: xs) cs)
    (hc : headMark? kind = some c) (hk : beginsBody kind = false) :
    ∃ rest, after? c (trimStart cs) = some rest ∧ At xs rest := by
  obtain ⟨text, rest, htext, hread, hrest⟩ := h.next
  obtain rfl := text_of_headMark? hread hc
  exact ⟨rest, after?_eq_some.mpr htext, (hrest hk).2⟩

theorem At.begins {kind : TokenKind} {value : String} {c : Char} (h : At ((kind, value) :: xs) cs)
    (hc : headMark? kind = some c) : (trimStart cs).head? = some c := by
  obtain ⟨text, rest, htext, hread, -⟩ := h.next
  obtain rfl := text_of_headMark? hread hc
  rw [htext]
  rfl

theorem At.name {value : String} (h : At ((.name, value) :: xs) cs) :
    ∃ name rest, word? (trimStart cs) = some (name, rest) ∧ At xs rest := by
  obtain ⟨text, rest, htext, hread, hrest⟩ := h.next
  obtain ⟨hquote, hrest⟩ := hrest rfl
  obtain ⟨hne, hword, hend⟩ := word_of_name hread hquote
  refine ⟨text, rest, ?_, hrest⟩
  rw [word?_eq, htext, takeWhile_append_of_head hword hend, dropWhile_append_of_head hword hend,
    if_neg hne]

theorem trimStart_trimStart (cs : List Char) : trimStart (trimStart cs) = trimStart cs :=
  List.dropWhile_idempotent isBlank cs

theorem afterParams?_trimStart (cs : List Char) :
    afterParams? (trimStart cs) = afterParams? cs := by
  rw [afterParams?_eq, afterParams?_eq cs, trimStart_trimStart]

theorem after?_of_word? {c : Char} {name rest : List Char} (hc : isWordChar c = false)
    (h : word? cs = some (name, rest)) : after? c cs = none := by
  refine Option.eq_none_iff_forall_ne_some.mpr fun r hr => ?_
  rw [after?_eq_some] at hr
  rw [hr, word?_of_head? fun d hd => by cases hd; exact hc] at h
  cases h

theorem afterWord?_of_word? {name rest : List Char} (h : word? cs = some (name, rest)) :
    afterWord? cs = some (trimStart rest) := by
  rw [afterWord?, h]
  rfl

theorem content_terminal {kind : TokenKind} (t : Terminal kind) :
    t.1.content = (kind, t.1.value) := by
  rw [Token.content, t.2]

theorem At.param {d : ParamDerivation} {ys : List (TokenKind × String)}
    (h : At (d.tokens.map Token.content ++ ys) cs) :
    ∃ rest,
      afterParam? (trimStart cs) = some ((after? ',' (trimStart rest)).getD (trimStart rest)) ∧
      after? ')' (trimStart cs) = none ∧ At ys rest := by
  simp only [ParamDerivation.tokens, List.map_cons, List.map_nil, content_terminal] at h
  obtain ⟨name, r₁, hname, hcolon⟩ := At.name h
  obtain ⟨r₂, hmark, htype⟩ := hcolon.mark rfl rfl
  obtain ⟨type, r₃, hword, hrest⟩ := htype.name
  refine ⟨r₃, ?_, after?_of_word? (by decide +kernel) hname, hrest⟩
  simp [afterParam?, afterWord?_of_word? hname, hmark, afterWord?_of_word? hword]

theorem At.params {d : ParamListDerivation} {value : String} {ys : List (TokenKind × String)}
    (h : At (d.tokens.map Token.content ++ (.rightParen, value) :: ys) cs) :
    ∃ rest, afterParams? cs = some rest ∧ At ys rest := by
  induction d generalizing cs with
  | last p =>
    obtain ⟨r₁, hparam, hopen, hclose⟩ := At.param h
    obtain ⟨r₂, hmark, hrest⟩ := hclose.mark rfl rfl
    have hcomma : after? ',' (trimStart r₁) = none := by
      rw [after?_eq_some] at hmark
      rw [hmark]
      rfl
    refine ⟨r₂, ?_, hrest⟩
    rw [afterParams?_eq, hopen, hparam, hcomma, Option.getD_none, Option.orElse_none,
      Option.bind_some, afterParams?_trimStart, afterParams?_eq, hmark]
    rfl
  | cons p comma more ih =>
    simp only [ParamListDerivation.tokens, List.map_append, List.map_cons, content_terminal,
      List.append_assoc] at h
    obtain ⟨r₁, hparam, hopen, hcomma⟩ := At.param h
    obtain ⟨r₂, hmark, hmore⟩ := hcomma.mark rfl rfl
    obtain ⟨r₃, hend, hrest⟩ := ih hmore
    refine ⟨r₃, ?_, hrest⟩
    rw [afterParams?_eq, hopen, hparam, hmark, Option.getD_some, Option.orElse_none,
      Option.bind_some, hend]

theorem At.isDefinition {d : DefinitionDerivation} {ys : List (TokenKind × String)}
    (h : At (d.tokens.map Token.content ++ ys) cs) : isDefinition (trimStart cs) = true := by
  simp only [DefinitionDerivation.tokens, List.map_cons, List.map_append, content_terminal,
    List.cons_append, List.append_assoc] at h
  obtain ⟨name, r₁, hname, hopen⟩ := At.name h
  obtain ⟨r₂, hmark, hparams⟩ := hopen.mark rfl rfl
  obtain ⟨r₃, hclose, hcolon⟩ : ∃ rest, afterParams? r₂ = some rest ∧ At _ rest := by
    cases hd : d.params with
    | none =>
      simp only [hd, DefinitionDerivation.paramTokens, Option.elim, List.map_nil,
        List.nil_append] at hparams
      obtain ⟨r₃, hend, hcolon⟩ := hparams.mark rfl rfl
      refine ⟨r₃, ?_, hcolon⟩
      rw [afterParams?_eq, hend]
      rfl
    | some l =>
      simp only [hd, DefinitionDerivation.paramTokens, Option.elim] at hparams
      exact hparams.params
  obtain ⟨r₄, hcolon, htype⟩ := hcolon.mark rfl rfl
  obtain ⟨type, r₅, hword, hbody⟩ := htype.name
  have hresult : afterResult? (trimStart cs) = some (trimStart r₅) := by
    simp [afterResult?, afterWord?_of_word? hname, hmark, hclose, hcolon, afterWord?_of_word? hword]
  rw [isDefinition_eq, hresult, Option.any_some]
  cases hb : d.body with
  | equation equal e =>
    simp only [hb, BodyDerivation.tokens, List.map_cons, content_terminal] at hbody
    rw [At.begins hbody rfl]
    rfl
  | block open_ inner close =>
    simp only [hb, BodyDerivation.tokens, List.map_cons, content_terminal] at hbody
    rw [At.begins hbody rfl]
    rfl

end

section

variable {cs : List Char}

theorem exists_of_isDefinition (h : isDefinition cs = true) :
    ∃ name rest params after, word? cs = some (name, rest) ∧
      after? '(' (trimStart rest) = some params ∧ afterParams? params = some after := by
  rw [isDefinition_eq, Option.any_eq_true] at h
  obtain ⟨body, hbody, -⟩ := h
  simp only [afterResult?, Option.bind_eq_bind, Option.bind_eq_some_iff, afterWord?,
    Option.map_eq_some_iff] at hbody
  obtain ⟨_, ⟨⟨name, rest⟩, hname, rfl⟩, params, hopen, after, hparams, -⟩ := hbody
  exact ⟨name, rest, params, after, hname, hopen, hparams⟩

/-- A definition is no assignment, also if its name is `Set`: no comma comes after the name of its
first parameter. -/
theorem assignmentHead?_of_isDefinition (h : isDefinition cs = true) :
    assignmentHead? cs = none := by
  obtain ⟨name, rest, params, after, hname, hopen, hparams⟩ := exists_of_isDefinition h
  refine Option.eq_none_iff_forall_ne_some.mpr fun p hp => ?_
  obtain ⟨tail, inside, rest', rfl, hinside, hword, hcomma⟩ := exists_of_assignmentHead? hp
  have hparen : isWordChar '(' = false := by decide +kernel
  have htail : ∀ c ∈ tail.head?, isWordChar c = false := by
    intro c hc
    obtain ⟨tail, rfl⟩ := List.head?_eq_some_iff.mp hc
    by_contra hw
    have hblank := isBlank_eq_false_of_isWordChar (by simpa using hw)
    rw [trimStart_of_head? fun d hd => by cases hd; exact hblank] at hinside
    cases hinside
    exact hw hparen
  obtain rfl : rest = tail := by
    rw [word?_eq] at hname
    split at hname
    · cases hname
    · rw [← (Prod.mk.inj (Option.some.inj hname)).2]
      exact dropWhile_append_of_head isWordChar_of_mem_set htail
  obtain rfl : params = inside := by
    rw [after?_eq_some, hinside] at hopen
    exact (List.cons.inj hopen).2.symm
  have hfirst : afterParam? (trimStart params) = none := by
    rw [afterParam?, afterWord?_of_word? hword, hcomma]
    rfl
  rw [afterParams?_eq, after?_of_word? (by decide +kernel) hword, hfirst] at hparams
  cases hparams

theorem formulaHead?_of_isDefinition (h : isDefinition cs = true) : formulaHead? cs = none := by
  obtain ⟨name, rest, params, after, hname, hopen, -⟩ := exists_of_isDefinition h
  rw [after?_eq_some] at hopen
  simp [formulaHead?, hname, hopen, after?]

theorem useful_of_isDefinition (h : isDefinition cs = true) : (scan cs).useful ≠ 0 := by
  obtain ⟨name, rest, params, after, hname, -⟩ := exists_of_isDefinition h
  cases cs with
  | nil => cases hname
  | cons c cs =>
    have hc : isWordChar c = true := by
      by_contra hw
      rw [word?_of_head? fun d hd => by cases hd; simpa using hw] at hname
      cases hname
    have hstep : Marked (Scan.start.step c) := by
      have hord := isOrdinary_of_isWordChar hc
      have hslash : c ≠ '/' := by
        rintro rfl
        exact absurd hord (by decide)
      rw [Scan.step_ordinary rfl hord]
      refine ⟨?_, fun _ hlast => absurd (Option.some.inj hlast) hslash⟩
      rw [Scan.useful_take, usefulIn, List.countP_singleton, isBlank_eq_false_of_isWordChar hc]
      exact Nat.one_pos
    exact (hstep.run cs).useful.ne'

theorem classify_of_isDefinition {s : List Char} (h : isDefinition (trim s) = true) :
    classify s = .functionDefinition (String.ofList (trim s)) := by
  rw [classify_of_useful (useful_of_isDefinition h), assignment?_eq,
    assignmentHead?_of_isDefinition h, Option.bind_none, otherwise, namedFormula?_eq,
    formulaHead?_of_isDefinition h, Option.map_none]
  exact if_pos h

end

theorem trimStart_trim (cs : List Char) : trimStart (trim cs) = trim cs := by
  cases h : trimStart cs with
  | nil =>
    rw [trim, h]
    rfl
  | cons c rest =>
    have hc : isBlank c = false := head?_dropWhile c (by rw [← trimStart, h]; rfl)
    rw [trim, h, trimEnd_cons hc]
    exact trimStart_of_head? fun d hd => by cases hd; exact hc

theorem exists_definition {source : String} {fs : List FunctionDef}
    (hfs : readDefinitions source = .ok fs) :
    ∃ (d : DefinitionDerivation) (ys : List (TokenKind × String)),
      contents? source = some (d.tokens.map Token.content ++ ys) := by
  rw [readDefinitions, tokens] at hfs
  rw [contents?]
  cases hlex : lex source with
  | error e =>
    rw [hlex] at hfs
    cases hfs
  | ok ts =>
    rw [hlex] at hfs
    obtain ⟨d, hd, -, -⟩ := (definitions_iff_derivation ts fs).mp (mapError_eq_ok.mp hfs)
    change ∃ _ _, some (ts.list.map Token.content) = _
    rw [← hd]
    cases d with
    | last d => exact ⟨d, [], by rw [List.append_nil]; rfl⟩
    | ended d semicolon => exact ⟨d, _, by rw [DefinitionsDerivation.tokens, List.map_append]⟩
    | cons d semicolon more => exact ⟨d, _, by rw [DefinitionsDerivation.tokens, List.map_append]⟩

/-- A text that reads as definitions is classified as one, without the white space around it, and is
read as it was before, if up to its first body it has no comment and no quoted name. -/
theorem classify_of_readDefinitions {source : String} {fs : List FunctionDef}
    (hfs : readDefinitions source = .ok fs) (hbare : bareHead source.toList = true) :
    classify source.toList = .functionDefinition (trimmed source) ∧
      ∃ fs', readDefinitions (trimmed source) = .ok fs' ∧
        fs'.map FunctionDef.unplaced = fs.map FunctionDef.unplaced := by
  have hsource : contentsOf source.toList = contents? source := by
    rw [← contents?_ofList, String.ofList_toList]
  have hcontents : contents? (trimmed source) = contents? source := by
    rw [trimmed, contents?_ofList, contentsOf_trim, hsource]
  refine ⟨?_, readDefinitions_of_contents? hcontents hfs⟩
  obtain ⟨d, ys, hd⟩ := exists_definition hfs
  have hat : At (d.tokens.map Token.content ++ ys) (trim source.toList) := by
    refine ⟨?_, bareHead_trim ?_ hbare⟩
    · rw [contentsOf_trim, hsource, hd]
    · rw [hsource, hd]
      exact Option.some_ne_none _
  have hdefinition := hat.isDefinition
  rw [trimStart_trim] at hdefinition
  exact classify_of_isDefinition hdefinition

def setText : String :=
  "\n Set( x :Number,y: Number )  : Number \x7b x /* = */ + y \x7d; one(): Number = 1 "

theorem classify_of_readDefinitions_set :
    classify setText.toList = .functionDefinition (trimmed setText) ∧
      ∃ fs, readDefinitions (trimmed setText) = .ok fs ∧ fs.map (·.name) = ["Set", "one"] := by
  have hnames : (readDefinitions setText).toOption.map (·.map (·.name)) = some ["Set", "one"] := by
    decide +kernel
  cases hfs : readDefinitions setText with
  | error e =>
    rw [hfs] at hnames
    cases hnames
  | ok fs =>
    obtain ⟨hclassify, fs', hfs', hsame⟩ := classify_of_readDefinitions hfs (by decide +kernel)
    refine ⟨hclassify, fs', hfs', ?_⟩
    have hname : fs'.map (·.name) = fs.map (·.name) := by
      have h := congrArg (List.map FunctionDef.name) hsame
      rwa [List.map_map, List.map_map] at h
    rw [hname]
    rw [hfs] at hnames
    exact Option.some.inj hnames

end FormulaShell.Script
