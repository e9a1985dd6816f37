import FormulaShell.Proofs.Formula.DefinitionGrammar
import FormulaShell.Proofs.Formula.ParserCompleteness
import FormulaShell.Proofs.Formula.ParserSoundness

namespace FormulaShell.Formula

variable {eof : Token} {ts rest : List Token}

theorem typeName_sound {v : TypeName} {hlt : rest.length < ts.length}
    (h : typeName eof ts = .ok ⟨v, rest, hlt⟩) :
    ∃ t : Terminal .name, ts = t.1 :: rest ∧ typeNameOf t = v := by
  revert h
  fun_cases typeName eof ts with
  | case1 => rintro ⟨⟩
  | case2 t ht =>
    rintro ⟨⟩
    obtain ⟨t, rest, _⟩ := t
    obtain ⟨m, rfl, rfl⟩ := expect_sound ht
    exact ⟨m, rfl, rfl⟩

theorem param_sound {v : Param} {hlt : rest.length < ts.length}
    (h : param eof ts = .ok ⟨v, rest, hlt⟩) :
    ∃ p : ParamDerivation, p.tokens ++ rest = ts ∧ p.value = v := by
  revert h
  fun_cases param eof ts with
  | case1 | case2 | case3 => rintro ⟨⟩
  | case4 name hname colon hcolon type htype =>
    rintro ⟨⟩
    obtain ⟨name, ts', _⟩ := name
    obtain ⟨colon, ts'', _⟩ := colon
    obtain ⟨type, rest, _⟩ := type
    obtain ⟨name, rfl, rfl⟩ := expect_sound hname
    obtain ⟨colon, rfl, hc⟩ := expect_sound hcolon
    obtain rfl : ts' = colon.1 :: ts'' := hc
    obtain ⟨type, ht, rfl⟩ := typeName_sound htype
    obtain rfl : ts'' = type.1 :: rest := ht
    exact ⟨⟨name, colon, type⟩, rfl, rfl⟩

theorem paramList_sound {v : List Param} {hlt : rest.length < ts.length}
    (h : paramList eof ts = .ok ⟨v, rest, hlt⟩) :
    ∃ (d : ParamListDerivation) (close : Terminal .rightParen),
      d.tokens ++ close.1 :: rest = ts ∧ d.value = v := by
  fun_induction paramList eof ts generalizing v rest with
  | case1 | case2 | case3 | case5 => cases h
  | case4 ts p t left hlt' hp hk r hr ih =>
    obtain ⟨ps, rest', hlt''⟩ := r
    cases h
    obtain ⟨p, rfl, rfl⟩ := param_sound hp
    obtain ⟨d, close, rfl, rfl⟩ := ih hr
    exact ⟨.cons p ⟨t, hk⟩ d, close, List.append_assoc .., rfl⟩
  | case6 ts p t left hlt' hp hk r hr =>
    obtain ⟨c, rest', hlt''⟩ := r
    cases h
    obtain ⟨p, rfl, rfl⟩ := param_sound hp
    obtain ⟨close, rfl, hc⟩ := expect_sound hr
    cases hc
    exact ⟨.last p, close, rfl, rfl⟩

open DefinitionDerivation (paramTokens paramValues)

theorem params_sound {v : List Param} {hlt : rest.length < ts.length}
    (h : params eof ts = .ok ⟨v, rest, hlt⟩) :
    ∃ (d : Option ParamListDerivation) (close : Terminal .rightParen),
      paramTokens d ++ close.1 :: rest = ts ∧ paramValues d = v := by
  have hlist {ts : List Token} {hlt} (h : paramList eof ts = .ok ⟨v, rest, hlt⟩) :
      ∃ (d : Option ParamListDerivation) (close : Terminal .rightParen),
        paramTokens d ++ close.1 :: rest = ts ∧ paramValues d = v := by
    obtain ⟨d, close, hd⟩ := paramList_sound h
    exact ⟨some d, close, hd⟩
  cases ts with
  | nil => exact hlist h
  | cons t ts =>
    rw [params] at h
    split at h
    next hk =>
      cases h
      exact ⟨none, ⟨t, hk⟩, rfl, rfl⟩
    next => exact hlist h

theorem body_sound {v : Expr} {hlt : rest.length < ts.length}
    (h : body eof ts = .ok ⟨v, rest, hlt⟩) :
    ∃ b : BodyDerivation, b.tokens ++ rest = ts ∧ b.value = v ∧ b.nesting < maxNesting := by
  revert h
  fun_cases body eof ts with
  | case1 | case3 | case4 => rintro ⟨⟩
  | case2 open_ hopen inner hinner =>
    rintro ⟨⟩
    obtain ⟨open_, ts', _⟩ := open_
    obtain ⟨e, rest, _⟩ := inner
    obtain ⟨open_, rfl, rfl⟩ := expect_sound hopen
    obtain ⟨es, rfl, close, d, hd, rfl, hdn⟩ := closedChain_sound wholeExpression_sound hinner
    obtain rfl : d.tokens ++ close.1 :: rest = ts' := hd
    have htokens : (BodyDerivation.block open_ d close).tokens ++ rest =
        open_.1 :: (d.tokens ++ close.1 :: rest) := by simp [BodyDerivation.tokens]
    exact ⟨.block open_ d close, htokens, rfl, hdn⟩
  | case5 _ _ equal hequal e he =>
    rintro ⟨⟩
    obtain ⟨equal, ts', _⟩ := equal
    obtain ⟨e, rest, _⟩ := e
    obtain ⟨equal, rfl, rfl⟩ := expect_sound hequal
    obtain ⟨d, hd, rfl, hdn⟩ := wholeExpression_sound he
    obtain rfl : d.tokens ++ rest = ts' := hd
    exact ⟨.equation equal d, rfl, rfl, hdn⟩

theorem signature_sound {v : Token × List Param × TypeName} {hlt : rest.length < ts.length}
    (h : signature eof ts = .ok ⟨v, rest, hlt⟩) :
    ∃ (name : Terminal .name) (open_ : Terminal .leftParen) (d : Option ParamListDerivation)
      (close : Terminal .rightParen) (colon : Terminal .colon) (type : Terminal .name),
      name.1 :: open_.1 :: (paramTokens d ++ close.1 :: colon.1 :: type.1 :: rest) = ts ∧
        (name.1, paramValues d, typeNameOf type) = v := by
  revert h
  fun_cases signature eof ts with
  | case1 | case2 | case3 | case4 | case5 => rintro ⟨⟩
  | case6 name hname open_ hopen ps hps colon hcolon type htype =>
    rintro ⟨⟩
    obtain ⟨name, ts₁, _⟩ := name
    obtain ⟨open_, ts₂, _⟩ := open_
    obtain ⟨ps, ts₃, _⟩ := ps
    obtain ⟨colon, ts₄, _⟩ := colon
    obtain ⟨type, rest, _⟩ := type
    obtain ⟨name, rfl, rfl⟩ := expect_sound hname
    obtain ⟨open_, rfl, ho⟩ := expect_sound hopen
    obtain rfl : ts₁ = open_.1 :: ts₂ := ho
    obtain ⟨d, close, hd, rfl⟩ := params_sound hps
    obtain rfl : paramTokens d ++ close.1 :: ts₃ = ts₂ := hd
    obtain ⟨colon, rfl, hc⟩ := expect_sound hcolon
    obtain rfl : ts₃ = colon.1 :: ts₄ := hc
    obtain ⟨type, ht, rfl⟩ := typeName_sound htype
    obtain rfl : ts₄ = type.1 :: rest := ht
    exact ⟨name, open_, d, close, colon, type, rfl, rfl⟩

theorem definition_sound {v : FunctionDef} {hlt : rest.length < ts.length}
    (h : definition eof ts = .ok ⟨v, rest, hlt⟩) :
    ∃ d : DefinitionDerivation, d.tokens ++ rest = ts ∧ d.value = v ∧
      d.body.nesting < maxNesting := by
  cases hs : signature eof ts with
  | error e => simp [definition, hs] at h
  | ok s =>
    cases hb : body eof s.rest with
    | error e => simp [definition, hs, hb] at h
    | ok b =>
      simp only [definition, hs, hb] at h
      cases h
      obtain ⟨⟨name, ps, type⟩, ts', _⟩ := s
      obtain ⟨e, rest, _⟩ := b
      obtain ⟨name, open_, d, close, colon, type, rfl, hv⟩ := signature_sound hs
      cases hv
      obtain ⟨b, hbt, rfl, hbn⟩ := body_sound hb
      obtain rfl : b.tokens ++ rest = ts' := hbt
      let d' : DefinitionDerivation := ⟨name, open_, d, close, colon, type, b⟩
      have htokens : d'.tokens ++ rest =
          name.1 :: open_.1 :: (paramTokens d ++ close.1 :: colon.1 :: type.1 ::
            (b.tokens ++ rest)) := by simp [d', DefinitionDerivation.tokens]
      exact ⟨d', htokens, rfl, hbn⟩

theorem definitions_sound {v : List FunctionDef} (h : definitions eof ts = .ok v) :
    ∃ d : DefinitionsDerivation, d.tokens = ts ∧ d.value = v ∧ d.nesting < maxNesting := by
  fun_induction definitions eof ts generalizing v with
  | case1 | case4 => cases h
  | case2 ts f hlt hf =>
    cases h
    obtain ⟨d, rfl, rfl, hdn⟩ := definition_sound hf
    exact ⟨.last d, (List.append_nil _).symm, rfl, hdn⟩
  | case3 ts f t left hlt hf hk hleft =>
    cases h
    obtain rfl := List.isEmpty_iff.mp hleft
    obtain ⟨d, rfl, rfl, hdn⟩ := definition_sound hf
    exact ⟨.ended d ⟨t, hk⟩, rfl, rfl, hdn⟩
  | case5 ts f t left hlt hf hk hleft fs hfs ih =>
    cases h
    obtain ⟨d, rfl, rfl, hdn⟩ := definition_sound hf
    obtain ⟨more, rfl, rfl, hmn⟩ := ih hfs
    exact ⟨.cons d ⟨t, hk⟩ more, rfl, rfl, Nat.max_lt.mpr ⟨hdn, hmn⟩⟩
  | case6 => cases h

section

variable (eof rest)

theorem gives_typeName (t : Terminal .name) :
    Gives (typeName eof (t.1 :: rest)) (typeNameOf t) rest := by
  rw [typeName, expect_terminal]
  exact ⟨_, rfl⟩

theorem gives_param (p : ParamDerivation) : Gives (param eof (p.tokens ++ rest)) p.value rest := by
  obtain ⟨name, colon, type⟩ := p
  obtain ⟨hlt, h⟩ := gives_typeName eof rest type
  simp only [ParamDerivation.tokens, List.cons_append, List.nil_append, param, expect_terminal,
    Parsed.used, h]
  exact ⟨_, rfl⟩

end

theorem gives_paramList (d : ParamListDerivation) (close : Terminal .rightParen) :
    Gives (paramList eof (d.tokens ++ close.1 :: rest)) d.value rest := by
  induction d with
  | last p =>
    obtain ⟨hlt, h⟩ := gives_param eof (close.1 :: rest) p
    have hne : close.1.kind ≠ .comma := by simp [close.2]
    rw [ParamListDerivation.tokens, paramList, h]
    simp only [if_neg hne, expect_terminal]
    exact ⟨_, rfl⟩
  | cons p comma more ih =>
    obtain ⟨hlt, h⟩ := gives_param eof (comma.1 :: (more.tokens ++ close.1 :: rest)) p
    obtain ⟨hlt', h'⟩ := ih
    rw [ParamListDerivation.tokens, List.append_assoc, List.cons_append, paramList, h]
    simp only [if_pos comma.2, h']
    exact ⟨_, rfl⟩

theorem gives_params (d : Option ParamListDerivation) (close : Terminal .rightParen) :
    Gives (params eof (paramTokens d ++ close.1 :: rest)) (paramValues d) rest := by
  cases d with
  | none =>
    rw [paramTokens, Option.elim, List.nil_append, params, if_pos close.2]
    exact ⟨_, rfl⟩
  | some l =>
    have h : Gives (paramList eof (l.tokens ++ close.1 :: rest)) l.value rest :=
      gives_paramList l close
    obtain ⟨name, more, hl⟩ := l.tokens_cons
    have hne : name.1.kind ≠ .rightParen := by simp [name.2]
    rw [hl] at h
    rw [paramTokens, Option.elim, hl]
    rw [List.cons_append] at h ⊢
    rw [params, if_neg hne]
    exact h

theorem gives_body (b : BodyDerivation) (hn : b.nesting < maxNesting)
    (hfree : Free .expression rest) : Gives (body eof (b.tokens ++ rest)) b.value rest := by
  cases b with
  | equation equal e =>
    obtain ⟨hlt, h⟩ : Gives (wholeExpression eof (e.tokens ++ rest)) e.value rest :=
      (accepted e separate_levels).1 hn hfree
    have hne : equal.1.kind ≠ .leftBrace := by simp [equal.2]
    have hbrace {ts : List Token} : expect eof .leftBrace (equal.1 :: ts) =
        failAt equal.1 (.expected .leftBrace equal.1.kind equal.1.value) := by
      rw [expect, if_neg hne]
    rw [BodyDerivation.tokens, List.cons_append, body, hbrace]
    simp only [failAt, expect_terminal, Parsed.used, h]
    exact ⟨_, rfl⟩
  | block open_ inner close =>
    have hcurrent : (current eof (close.1 :: rest)).kind = .rightBrace := close.2
    have hchain : GivesChain eof (wholeExpression eof) .rightBrace (inner.tokens ++ close.1 :: rest)
        inner.value (close.1 :: rest) := accepted inner hn hcurrent (by decide)
    obtain ⟨hlt, h⟩ := hchain.closed close
    rw [BodyDerivation.tokens, List.cons_append, List.append_assoc, body, expect_terminal]
    simp only [Parsed.used, List.cons_append, List.nil_append, h]
    exact ⟨_, rfl⟩

theorem gives_signature (name : Terminal .name) (open_ : Terminal .leftParen)
    (d : Option ParamListDerivation) (close : Terminal .rightParen) (colon : Terminal .colon)
    (type : Terminal .name) :
    Gives (signature eof (name.1 :: open_.1 ::
        (paramTokens d ++ close.1 :: colon.1 :: type.1 :: rest)))
      (name.1, paramValues d, typeNameOf type) rest := by
  obtain ⟨hlt, hd⟩ : Gives (params eof (paramTokens d ++ close.1 :: colon.1 :: type.1 :: rest))
      (paramValues d) (colon.1 :: type.1 :: rest) := gives_params d close
  obtain ⟨hlt', htype⟩ := gives_typeName eof rest type
  simp only [signature, expect_terminal, Parsed.used, hd, htype]
  exact ⟨_, rfl⟩

theorem gives_definition (d : DefinitionDerivation) (hn : d.body.nesting < maxNesting)
    (hfree : Free .expression rest) : Gives (definition eof (d.tokens ++ rest)) d.value rest := by
  obtain ⟨name, open_, ps, close, colon, type, b⟩ := d
  have htokens : DefinitionDerivation.tokens ⟨name, open_, ps, close, colon, type, b⟩ ++ rest =
      name.1 :: open_.1 :: (paramTokens ps ++ close.1 :: colon.1 :: type.1 ::
        (b.tokens ++ rest)) := by simp [DefinitionDerivation.tokens]
  obtain ⟨hlt, hsignature⟩ : Gives (signature eof (name.1 :: open_.1 :: (paramTokens ps ++
      close.1 :: colon.1 :: type.1 :: (b.tokens ++ rest)))) _ _ :=
    gives_signature name open_ ps close colon type
  obtain ⟨hlt', hbody⟩ : Gives (body eof (b.tokens ++ rest)) b.value rest := gives_body b hn hfree
  rw [htokens]
  simp only [definition, hsignature, hbody]
  exact ⟨_, rfl⟩

theorem definitions_of_derivation (d : DefinitionsDerivation) (hn : d.nesting < maxNesting) :
    definitions eof d.tokens = .ok d.value := by
  induction d with
  | last d =>
    obtain ⟨hlt, h⟩ : Gives (definition eof (d.tokens ++ [])) d.value [] :=
      gives_definition d hn (free_nil _)
    rw [DefinitionsDerivation.tokens, ← List.append_nil d.tokens, definitions, h]
    rfl
  | ended d semicolon =>
    obtain ⟨hlt, h⟩ : Gives (definition eof (d.tokens ++ [semicolon.1])) d.value [semicolon.1] :=
      gives_definition d hn (free_semicolon _ _)
    rw [DefinitionsDerivation.tokens, definitions, h]
    simp only [if_pos semicolon.2]
    rfl
  | cons d semicolon more ih =>
    obtain ⟨hdn, hmn⟩ := Nat.max_lt.mp hn
    obtain ⟨hlt, h⟩ : Gives (definition eof (d.tokens ++ semicolon.1 :: more.tokens)) d.value
      (semicolon.1 :: more.tokens) := gives_definition d hdn (free_semicolon _ _)
    rw [DefinitionsDerivation.tokens, definitions, h]
    simp only [if_pos semicolon.2, List.isEmpty_iff, more.tokens_ne_nil, ih hmn]
    rfl

end FormulaShell.Formula
