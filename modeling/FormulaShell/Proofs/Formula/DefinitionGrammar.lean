import FormulaShell.Formula.DefinitionParser
import FormulaShell.Proofs.Formula.Unambiguity

namespace FormulaShell.Formula

def typeNameOf (t : Terminal .name) : TypeName := ⟨t.1.value, t.1.start.offset⟩

structure ParamDerivation where
  name : Terminal .name
  colon : Terminal .colon
  type : Terminal .name

inductive ParamListDerivation where
  | last (p : ParamDerivation)
  | cons (p : ParamDerivation) (comma : Terminal .comma) (more : ParamListDerivation)

inductive BodyDerivation where
  | equation (equal : Terminal .equal) (e : Derivation .expression)
  | block (open_ : Terminal .leftBrace) (inner : Derivation .chain) (close : Terminal .rightBrace)

structure DefinitionDerivation where
  name : Terminal .name
  open_ : Terminal .leftParen
  params : Option ParamListDerivation
  close : Terminal .rightParen
  colon : Terminal .colon
  type : Terminal .name
  body : BodyDerivation

/-- One definition or more, between semicolons, of which one may come at the end. -/
inductive DefinitionsDerivation where
  | last (d : DefinitionDerivation)
  | ended (d : DefinitionDerivation) (semicolon : Terminal .semicolon)
  | cons (d : DefinitionDerivation) (semicolon : Terminal .semicolon)
      (more : DefinitionsDerivation)

namespace ParamDerivation

def tokens (p : ParamDerivation) : List Token := [p.name.1, p.colon.1, p.type.1]

def value (p : ParamDerivation) : Param := ⟨p.name.1.value, typeNameOf p.type⟩

end ParamDerivation

namespace ParamListDerivation

def tokens : ParamListDerivation → List Token
  | last p => p.tokens
  | cons p comma more => p.tokens ++ comma.1 :: more.tokens

def value : ParamListDerivation → List Param
  | last p => [p.value]
  | cons p _ more => p.value :: more.value

end ParamListDerivation

namespace BodyDerivation

def tokens : BodyDerivation → List Token
  | equation equal e => equal.1 :: e.tokens
  | block open_ inner close => open_.1 :: (inner.tokens ++ [close.1])

def value : BodyDerivation → Expr
  | equation _ e => e.value
  | block _ inner _ => inSequence inner.value

def nesting : BodyDerivation → Nat
  | equation _ e => e.nesting
  | block _ inner _ => inner.nesting

end BodyDerivation

namespace DefinitionDerivation

def paramTokens (params : Option ParamListDerivation) : List Token := params.elim [] (·.tokens)

def paramValues (params : Option ParamListDerivation) : List Param := params.elim [] (·.value)

def tokens (d : DefinitionDerivation) : List Token :=
  d.name.1 :: d.open_.1 :: (paramTokens d.params ++
    d.close.1 :: d.colon.1 :: d.type.1 :: d.body.tokens)

def value (d : DefinitionDerivation) : FunctionDef :=
  ⟨d.name.1.value, d.name.1.start.offset, paramValues d.params, typeNameOf d.type, d.body.value⟩

end DefinitionDerivation

namespace DefinitionsDerivation

def tokens : DefinitionsDerivation → List Token
  | last d => d.tokens
  | ended d semicolon => d.tokens ++ [semicolon.1]
  | cons d semicolon more => d.tokens ++ semicolon.1 :: more.tokens

def value : DefinitionsDerivation → List FunctionDef
  | last d | ended d _ => [d.value]
  | cons d _ more => d.value :: more.value

def nesting : DefinitionsDerivation → Nat
  | last d | ended d _ => d.body.nesting
  | cons d _ more => max d.body.nesting more.nesting

end DefinitionsDerivation

theorem ParamDerivation.tokens_inj {p p' : ParamDerivation} {rest rest' : List Token}
    (h : p.tokens ++ rest = p'.tokens ++ rest') : p = p' ∧ rest = rest' := by
  obtain ⟨name, colon, type⟩ := p
  obtain ⟨name', colon', type'⟩ := p'
  obtain ⟨rfl, hcolon⟩ := terminal_cons_inj h
  obtain ⟨rfl, htype⟩ := terminal_cons_inj hcolon
  obtain ⟨rfl, hrest⟩ := terminal_cons_inj htype
  exact ⟨rfl, hrest⟩

theorem ParamListDerivation.tokens_inj {d d' : ParamListDerivation}
    {close close' : Terminal .rightParen} {rest rest' : List Token}
    (h : d.tokens ++ close.1 :: rest = d'.tokens ++ close'.1 :: rest') :
    d = d' ∧ close = close' ∧ rest = rest' := by
  induction d generalizing d' with
  | last p =>
    cases d' with
    | last p' =>
      obtain ⟨rfl, hclose⟩ := ParamDerivation.tokens_inj h
      obtain ⟨rfl, hrest⟩ := terminal_cons_inj hclose
      exact ⟨rfl, rfl, hrest⟩
    | cons p' comma more =>
      obtain ⟨-, hclose⟩ := ParamDerivation.tokens_inj (h.trans (List.append_assoc ..))
      exact absurd (List.cons.inj hclose).1 (terminal_ne (by decide) close comma)
  | cons p comma more ih =>
    have h' := (List.append_assoc ..).symm.trans h
    cases d' with
    | last p' =>
      obtain ⟨-, hclose⟩ := ParamDerivation.tokens_inj h'
      exact absurd (List.cons.inj hclose).1 (terminal_ne (by decide) comma close')
    | cons p' comma' more' =>
      obtain ⟨rfl, hcomma⟩ := ParamDerivation.tokens_inj (h'.trans (List.append_assoc ..))
      obtain ⟨rfl, hmore⟩ := terminal_cons_inj hcomma
      obtain ⟨rfl, rfl, hrest⟩ := ih hmore
      exact ⟨rfl, rfl, hrest⟩

theorem ParamListDerivation.tokens_cons (d : ParamListDerivation) :
    ∃ (name : Terminal .name) (more : List Token), d.tokens = name.1 :: more := by
  cases d with
  | last p | cons p => exact ⟨p.name, _, rfl⟩

namespace DefinitionDerivation

theorem paramTokens_inj {params params' : Option ParamListDerivation}
    {close close' : Terminal .rightParen} {rest rest' : List Token}
    (h : paramTokens params ++ close.1 :: rest = paramTokens params' ++ close'.1 :: rest') :
    params = params' ∧ close = close' ∧ rest = rest' := by
  cases params with
  | none =>
    cases params' with
    | none =>
      obtain ⟨rfl, hrest⟩ := terminal_cons_inj h
      exact ⟨rfl, rfl, hrest⟩
    | some l' =>
      obtain ⟨name, more, hl⟩ := l'.tokens_cons
      simp only [paramTokens, Option.elim, hl] at h
      exact absurd (List.cons.inj h).1 (terminal_ne (by decide) close name)
  | some l =>
    cases params' with
    | none =>
      obtain ⟨name, more, hl⟩ := l.tokens_cons
      simp only [paramTokens, Option.elim, hl] at h
      exact absurd (List.cons.inj h).1 (terminal_ne (by decide) name close')
    | some l' =>
      obtain ⟨rfl, hclose⟩ := ParamListDerivation.tokens_inj h
      exact ⟨rfl, hclose⟩

end DefinitionDerivation

section

variable {rest rest' : List Token}

theorem BodyDerivation.tokens_inj {b b' : BodyDerivation} (hfree : Free .expression rest)
    (hfree' : Free .expression rest') (h : b.tokens ++ rest = b'.tokens ++ rest') :
    b = b' ∧ rest = rest' := by
  cases b with
  | equation equal e =>
    cases b' with
    | equation equal' e' =>
      obtain ⟨rfl, he⟩ := terminal_cons_inj h
      obtain ⟨rfl, rfl⟩ := (determined e separate_levels).settled hfree hfree' he
      exact ⟨rfl, rfl⟩
    | block open_ => exact absurd (List.cons.inj h).1 (terminal_ne (by decide) equal open_)
  | block open_ inner close =>
    cases b' with
    | equation equal => exact absurd (List.cons.inj h).1 (terminal_ne (by decide) open_ equal)
    | block open' inner' close' =>
      obtain ⟨rfl, hinner⟩ := terminal_cons_inj h
      obtain ⟨rfl, rfl, hrest⟩ := (determined inner trivial).settled.closed (by decide) hinner
      exact ⟨rfl, hrest⟩

theorem DefinitionDerivation.tokens_inj {d d' : DefinitionDerivation}
    (hfree : Free .expression rest) (hfree' : Free .expression rest')
    (h : d.tokens ++ rest = d'.tokens ++ rest') : d = d' ∧ rest = rest' := by
  obtain ⟨name, open_, params, close, colon, type, body⟩ := d
  obtain ⟨name', open', params', close', colon', type', body'⟩ := d'
  simp only [tokens, List.cons_append, List.append_assoc] at h
  obtain ⟨rfl, hopen⟩ := terminal_cons_inj h
  obtain ⟨rfl, hparams⟩ := terminal_cons_inj hopen
  obtain ⟨rfl, rfl, hcolon⟩ := paramTokens_inj hparams
  obtain ⟨rfl, htype⟩ := terminal_cons_inj hcolon
  obtain ⟨rfl, hbody⟩ := terminal_cons_inj htype
  obtain ⟨rfl, rfl⟩ := BodyDerivation.tokens_inj hfree hfree' hbody
  exact ⟨rfl, rfl⟩

end

theorem DefinitionDerivation.tokens_ne_nil (d : DefinitionDerivation) : d.tokens ≠ [] :=
  List.cons_ne_nil _ _

theorem DefinitionsDerivation.tokens_ne_nil (d : DefinitionsDerivation) : d.tokens ≠ [] := by
  cases d with
  | last d => exact d.tokens_ne_nil
  | ended d | cons d => exact List.append_ne_nil_of_left_ne_nil d.tokens_ne_nil _

theorem free_semicolon (t : Terminal .semicolon) (rest : List Token) :
    Free .expression (t.1 :: rest) := free_terminal t (by decide)

theorem DefinitionsDerivation.tokens_injective {d d' : DefinitionsDerivation}
    (h : d.tokens = d'.tokens) : d = d' := by
  have hnil := free_nil .expression
  induction d generalizing d' with
  | last d =>
    rw [tokens, ← List.append_nil d.tokens] at h
    cases d' with
    | last d' =>
      rw [tokens, ← List.append_nil d'.tokens] at h
      obtain ⟨rfl, -⟩ := DefinitionDerivation.tokens_inj hnil hnil h
      rfl
    | ended d' semicolon' | cons d' semicolon' =>
      obtain ⟨-, hrest⟩ := DefinitionDerivation.tokens_inj hnil (free_semicolon _ _) h
      cases hrest
  | ended d semicolon =>
    cases d' with
    | last d' =>
      rw [tokens, tokens, ← List.append_nil d'.tokens] at h
      obtain ⟨-, hrest⟩ := DefinitionDerivation.tokens_inj (free_semicolon _ _) hnil h
      cases hrest
    | ended d' semicolon' =>
      obtain ⟨rfl, hrest⟩ :=
        DefinitionDerivation.tokens_inj (free_semicolon _ _) (free_semicolon _ _) h
      obtain ⟨rfl, -⟩ := terminal_cons_inj hrest
      rfl
    | cons d' semicolon' more' =>
      obtain ⟨-, hrest⟩ :=
        DefinitionDerivation.tokens_inj (free_semicolon _ _) (free_semicolon _ _) h
      exact absurd (List.cons.inj hrest).2.symm more'.tokens_ne_nil
  | cons d semicolon more ih =>
    cases d' with
    | last d' =>
      rw [tokens, tokens, ← List.append_nil d'.tokens] at h
      obtain ⟨-, hrest⟩ := DefinitionDerivation.tokens_inj (free_semicolon _ _) hnil h
      cases hrest
    | ended d' semicolon' =>
      obtain ⟨-, hrest⟩ :=
        DefinitionDerivation.tokens_inj (free_semicolon _ _) (free_semicolon _ _) h
      exact absurd (List.cons.inj hrest).2 more.tokens_ne_nil
    | cons d' semicolon' more' =>
      obtain ⟨rfl, hrest⟩ :=
        DefinitionDerivation.tokens_inj (free_semicolon _ _) (free_semicolon _ _) h
      obtain ⟨rfl, hmore⟩ := terminal_cons_inj hrest
      rw [ih hmore]

end FormulaShell.Formula
