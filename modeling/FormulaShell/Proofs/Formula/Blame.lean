import FormulaShell.Formula.DefinitionParser
import FormulaShell.Proofs.Formula.ParserSoundness

namespace FormulaShell.Formula

variable {α β : Type} {m n : Nat} {eof : Token}

/-- The position is that of one of the tokens or of the end. -/
def Blames (eof : Token) (ts : List Token) (e : ParseError) : Prop :=
  ∃ t ∈ eof :: ts, e.start = t.start

theorem Blames.mono {us ts : List Token} {e : ParseError} (h : Blames eof us e) (hs : us <:+ ts) :
    Blames eof ts e := by
  obtain ⟨t, ht, he⟩ := h
  exact ⟨t, List.cons_subset_cons eof hs.subset ht, he⟩

/-- An error blames what the parser is given, and a rest is the last part of it. -/
def Heeds (eof : Token) (ts : List Token) : Except ParseError (Parsed Token α n) → Prop
  | .error e => Blames eof ts e
  | .ok r => r.rest <:+ ts

abbrev HeedsAll (eof : Token) (p : Parser α) : Prop := ∀ ts, Heeds eof ts (p ts)

section

variable {us ts : List Token} {x : Except ParseError (Parsed Token α n)}

theorem Heeds.mono (h : Heeds eof us x) (hs : us <:+ ts) : Heeds eof ts x := by
  cases x with
  | error e => exact Blames.mono h hs
  | ok r => exact List.IsSuffix.trans h hs

theorem Heeds.blames (h : Heeds eof us x) {e : ParseError} (hx : x = .error e) (hs : us <:+ ts) :
    Blames eof ts e := by
  subst hx
  exact h.mono hs

theorem Heeds.suffix (h : Heeds eof us x) {r : Parsed Token α n} (hx : x = .ok r)
    (hs : us <:+ ts) : r.rest <:+ ts := by
  subst hx
  exact h.mono hs

theorem Heeds.keep (h : Heeds eof us x) {r : Parsed Token α n} (hx : x = .ok r) (hs : us <:+ ts)
    {q : Parsed Token β m} (hq : q.rest = r.rest) :
    Heeds eof ts (.ok q : Except ParseError (Parsed Token β m)) := by
  rw [Heeds, hq]
  exact h.suffix hx hs

theorem Heeds.after (h : Heeds eof us x) {v : α} {t : Token} {rest : List Token} {hlt}
    (hx : x = .ok ⟨v, t :: rest, hlt⟩) : rest <:+ us :=
  (List.suffix_cons t rest).trans (h.suffix hx List.suffix_rfl)

theorem heeds_failAt {t : Token} {fault : ParseFault} (h : t ∈ eof :: ts) :
    Heeds eof ts (failAt t fault : Except ParseError (Parsed Token α n)) := ⟨t, h, rfl⟩

theorem heeds_eof {fault : ParseFault} :
    Heeds eof ts (failAt eof fault : Except ParseError (Parsed Token α n)) :=
  heeds_failAt List.mem_cons_self

theorem heeds_head {t : Token} {fault : ParseFault} :
    Heeds eof (t :: ts) (failAt t fault : Except ParseError (Parsed Token α n)) :=
  heeds_failAt (List.mem_cons_of_mem _ List.mem_cons_self)

end

theorem heeds_expect (kind : TokenKind) : HeedsAll eof (expect eof kind) := by
  intro ts
  cases ts with
  | nil => exact heeds_eof
  | cons t rest =>
    by_cases ht : t.kind = kind
    · rw [expect, if_pos ht]
      exact List.suffix_cons t rest
    · rw [expect, if_neg ht]
      exact heeds_head

section

variable {next : Parser Expr} {kinds : List TokenKind}

theorem blames_joinOperands {op : Token} {l r : Expr} {e : ParseError} {ts : List Token}
    (h : joinOperands op l r = .error e) (hop : op ∈ ts) : Blames eof ts e := by
  unfold joinOperands at h
  split at h
  next => cases h
  next =>
    cases h
    exact ⟨op, List.mem_cons_of_mem _ hop, rfl⟩

theorem heeds_leftRest (hnext : HeedsAll eof next) (l : Expr) (ts : List Token) :
    Heeds eof ts (leftRest kinds next l ts) := by
  fun_induction leftRest kinds next l ts with
  | case1 => exact List.suffix_rfl
  | case2 _ op rest _ e he => exact (hnext rest).blames he (List.suffix_cons op rest)
  | case3 _ op rest _ _ _ _ _ e he => exact blames_joinOperands he List.mem_cons_self
  | case4 _ op rest _ r left _ hr _ _ e he ih =>
    exact ih.blames he ((hnext rest).suffix hr (List.suffix_cons op rest))
  | case5 _ op rest _ r left _ hr _ _ whole hwhole ih =>
    exact ih.suffix hwhole ((hnext rest).suffix hr (List.suffix_cons op rest))
  | case6 => exact List.suffix_rfl

theorem heeds_rightRow (hnext : HeedsAll eof next) : HeedsAll eof (rightRow kinds next) := by
  intro ts
  fun_induction rightRow kinds next ts with
  | case1 ts e he => exact (hnext ts).blames he List.suffix_rfl
  | case2 ts l _ hl => exact (hnext ts).suffix hl List.suffix_rfl
  | case3 ts l op rest _ hl _ e he ih => exact ih.blames he ((hnext ts).after hl)
  | case4 ts l op rest _ hl _ _ _ e he _ =>
    have hrest := (hnext ts).suffix hl List.suffix_rfl
    exact blames_joinOperands he (hrest.subset List.mem_cons_self)
  | case5 ts l op rest _ hl _ r hr _ _ ih => exact ih.keep hr ((hnext ts).after hl) rfl
  | case6 ts l op rest _ hl => exact (hnext ts).suffix hl List.suffix_rfl

theorem heeds_singlePair (hnext : HeedsAll eof next) : HeedsAll eof (singlePair kinds next) := by
  intro ts
  unfold singlePair
  split
  next e he => exact (hnext ts).blames he List.suffix_rfl
  next l _ hl => exact (hnext ts).suffix hl List.suffix_rfl
  next l op rest _ hl =>
    split
    · split
      next e he => exact (hnext rest).blames he ((hnext ts).after hl)
      next r hr =>
        have hrest := (hnext rest).suffix hr ((hnext ts).after hl)
        split
        next e he =>
          exact blames_joinOperands he
            (((hnext ts).suffix hl List.suffix_rfl).subset List.mem_cons_self)
        next => exact hrest
    · exact (hnext ts).suffix hl List.suffix_rfl

theorem heeds_level (l : Level) (hnext : HeedsAll eof next) : HeedsAll eof (level l next) := by
  obtain ⟨kinds, associativity⟩ := l
  cases associativity with
  | left =>
    intro ts
    unfold level
    dsimp only
    split
    next e he => exact (hnext ts).blames he List.suffix_rfl
    next first hfirst =>
      have hrest := (hnext ts).suffix hfirst List.suffix_rfl
      split
      next e he => exact (heeds_leftRest hnext _ _).blames he hrest
      next whole hwhole => exact (heeds_leftRest hnext _ _).suffix hwhole hrest
  | right => exact heeds_rightRow hnext
  | none => exact heeds_singlePair hnext

theorem heeds_expression (hnext : HeedsAll eof next) : HeedsAll eof (expression next) := by
  unfold expression
  induction levels with
  | nil => exact hnext
  | cons l ls ih => exact heeds_level l ih

end

section

variable {expr : Parser Expr} (he : HeedsAll eof expr) (stop : TokenKind)
include he

theorem heeds_chainRest (ts : List Token) : Heeds eof ts (chainRest eof expr stop ts) := by
  fun_induction chainRest eof expr stop ts with
  | case1 => exact List.suffix_rfl
  | case2 t rest => exact List.suffix_cons t rest
  | case3 t rest _ _ e hx => exact (he rest).blames hx (List.suffix_cons t rest)
  | case4 t rest _ _ item left _ hitem e hx ih =>
    exact ih.blames hx ((he rest).suffix hitem (List.suffix_cons t rest))
  | case5 t rest _ _ item left _ hitem more hmore ih =>
    exact ih.keep hmore ((he rest).suffix hitem (List.suffix_cons t rest)) rfl
  | case6 => exact List.suffix_rfl

theorem heeds_chain : HeedsAll eof (chain eof expr stop) := by
  intro ts
  unfold chain
  split
  next e hx => exact (he ts).blames hx List.suffix_rfl
  next first hfirst =>
    have hrest := (he ts).suffix hfirst List.suffix_rfl
    split
    next e hx => exact (heeds_chainRest he stop _).blames hx hrest
    next more hmore => exact (heeds_chainRest he stop _).keep hmore hrest rfl

theorem heeds_closedChain : HeedsAll eof (closedChain eof expr stop) := by
  intro ts
  unfold closedChain
  split
  next e hx => exact (heeds_chain he stop ts).blames hx List.suffix_rfl
  next inner hinner =>
    have hrest := (heeds_chain he stop ts).suffix hinner List.suffix_rfl
    split
    next e hx => exact (heeds_expect stop _).blames hx hrest
    next closing hclosing => exact (heeds_expect stop _).keep hclosing hrest rfl

theorem heeds_itemList : HeedsAll eof (itemList eof expr stop) := by
  intro ts
  fun_induction itemList eof expr stop ts with
  | case1 ts e hx => exact (he ts).blames hx List.suffix_rfl
  | case2 => exact heeds_eof
  | case3 ts item t rest _ hitem _ e hx ih => exact ih.blames hx ((he ts).after hitem)
  | case4 ts item t rest _ hitem _ more hmore ih => exact ih.keep hmore ((he ts).after hitem) rfl
  | case5 ts item t rest _ hitem _ e hx =>
    exact (heeds_expect stop _).blames hx ((he ts).suffix hitem List.suffix_rfl)
  | case6 ts item t rest _ hitem _ closing hclosing =>
    exact (heeds_expect stop _).keep hclosing ((he ts).suffix hitem List.suffix_rfl) rfl

theorem heeds_items : HeedsAll eof (items eof expr stop) := by
  intro ts
  cases ts with
  | nil => exact heeds_itemList he stop []
  | cons t rest =>
    by_cases ht : t.kind = stop
    · rw [items, if_pos ht]
      exact List.suffix_cons t rest
    · rw [items, if_neg ht]
      exact heeds_itemList he stop _

omit stop in
theorem heeds_field (seen : List String) : HeedsAll eof (field eof expr seen) := by
  intro ts
  unfold field
  split
  next e hx => exact (heeds_expect .name ts).blames hx List.suffix_rfl
  next name hname =>
    have hrest := (heeds_expect .name ts).suffix hname List.suffix_rfl
    split
    · obtain ⟨-, -, hts⟩ := expect_sound hname
      have hmem : name.value ∈ name.value :: name.rest := List.mem_cons_self
      rw [← hts] at hmem
      exact heeds_failAt (List.mem_cons_of_mem _ hmem)
    · split
      next e hx => exact (heeds_expect .colon _).blames hx hrest
      next colon hcolon =>
        have hrest := (heeds_expect .colon _).suffix hcolon hrest
        split
        next e hx => exact (he _).blames hx hrest
        next item hitem => exact (he _).keep hitem hrest rfl

omit stop in
theorem heeds_fieldList (seen : List String) : HeedsAll eof (fieldList eof expr seen) := by
  intro ts
  fun_induction fieldList eof expr seen ts with
  | case1 seen ts e hx => exact (heeds_field he seen ts).blames hx List.suffix_rfl
  | case2 => exact heeds_eof
  | case3 seen ts f t rest _ hf _ e hx ih => exact ih.blames hx ((heeds_field he seen ts).after hf)
  | case4 seen ts f t rest _ hf _ more hmore ih =>
    exact ih.keep hmore ((heeds_field he seen ts).after hf) rfl
  | case5 seen ts f t rest _ hf _ e hx =>
    exact (heeds_expect _ _).blames hx ((heeds_field he seen ts).suffix hf List.suffix_rfl)
  | case6 seen ts f t rest _ hf _ closing hclosing =>
    exact (heeds_expect _ _).keep hclosing
      ((heeds_field he seen ts).suffix hf List.suffix_rfl) rfl

omit stop in
theorem heeds_fields : HeedsAll eof (fields eof expr) := by
  intro ts
  cases ts with
  | nil => exact heeds_fieldList he [] []
  | cons t rest =>
    by_cases ht : t.kind = .rightBrace
    · rw [fields, if_pos ht]
      exact List.suffix_cons t rest
    · rw [fields, if_neg ht]
      exact heeds_fieldList he [] _

omit stop in
theorem heeds_nameOrCall (t : Token) (ts : List Token) :
    Heeds eof ts (nameOrCall eof expr t ts) := by
  cases ts with
  | nil => exact List.suffix_rfl
  | cons p rest =>
    by_cases hp : p.kind = .leftParen
    · rw [nameOrCall, if_pos hp]
      split
      next e hx => exact (heeds_items he _ rest).blames hx (List.suffix_cons p rest)
      next args hargs => exact (heeds_items he _ rest).keep hargs (List.suffix_cons p rest) rfl
    · rw [nameOrCall, if_neg hp]
      exact List.suffix_rfl

omit stop in
theorem heeds_atom : HeedsAll eof (atom eof expr) := by
  intro ts
  cases ts with
  | nil => exact heeds_eof
  | cons t rest =>
    have hrest : rest <:+ t :: rest := List.suffix_cons t rest
    rw [atom]
    split
    · split
      · exact hrest
      · exact heeds_head
    · exact hrest
    · exact hrest
    · exact hrest
    · exact (heeds_nameOrCall he t rest).mono hrest
    · split
      next e hx => exact (heeds_closedChain he _ rest).blames hx hrest
      next inner hinner => exact (heeds_closedChain he _ rest).keep hinner hrest rfl
    · split
      next e hx => exact (heeds_fields he rest).blames hx hrest
      next fs hfs => exact (heeds_fields he rest).keep hfs hrest rfl
    · split
      next e hx => exact (heeds_items he _ rest).blames hx hrest
      next es hes => exact (heeds_items he _ rest).keep hes hrest rfl
    · exact heeds_head
    · exact heeds_head

end

theorem heeds_suffixes (e : Expr) (ts : List Token) : Heeds eof ts (suffixes eof e ts) := by
  fun_induction suffixes eof e ts with
  | case1 => exact List.suffix_rfl
  | case2 _ t rest _ f hx ih => exact ih.blames hx (List.suffix_cons t rest)
  | case3 _ t rest _ r hr ih => exact ih.keep hr (List.suffix_cons t rest) rfl
  | case4 _ t rest _ _ f hx => exact (heeds_expect _ rest).blames hx (List.suffix_cons t rest)
  | case5 _ t rest _ _ name left _ hname f hx ih =>
    exact ih.blames hx ((heeds_expect _ rest).suffix hname (List.suffix_cons t rest))
  | case6 _ t rest _ _ name left _ hname r hr ih =>
    exact ih.keep hr ((heeds_expect _ rest).suffix hname (List.suffix_cons t rest)) rfl
  | case7 => exact List.suffix_rfl

theorem heeds_suffixed {expr : Parser Expr} (he : HeedsAll eof expr) :
    HeedsAll eof (suffixed eof expr) := by
  intro ts
  unfold suffixed
  split
  next e hx => exact (heeds_atom he ts).blames hx List.suffix_rfl
  next a ha =>
    have hrest := (heeds_atom he ts).suffix ha List.suffix_rfl
    split
    next e hx => exact (heeds_suffixes _ _).blames hx hrest
    next r hr => exact (heeds_suffixes _ _).keep hr hrest rfl

theorem heeds_operand (depth : Nat) : HeedsAll eof (operand eof depth) := by
  induction depth with
  | zero =>
    intro ts
    cases ts with
    | nil => exact heeds_eof
    | cons t rest => exact heeds_head
  | succ depth ih =>
    have hplain := heeds_suffixed (heeds_expression ih)
    intro ts
    cases ts with
    | nil => exact hplain []
    | cons t rest =>
      have hrest : rest <:+ t :: rest := List.suffix_cons t rest
      rw [operand]
      split
      case h_4 => exact hplain _
      -- the three signs
      all_goals
        split
        next e hx => exact (ih rest).blames hx hrest
        next r hr => exact (ih rest).keep hr hrest rfl

theorem heeds_wholeExpression : HeedsAll eof (wholeExpression eof) :=
  heeds_expression (heeds_operand maxNesting)

theorem blames_finish {v : α} {ts : List Token} {e : ParseError} (h : finish v ts = .error e) :
    Blames eof ts e := by
  cases ts with
  | nil => cases h
  | cons t rest =>
    cases h
    exact ⟨t, List.mem_cons_of_mem _ List.mem_cons_self, rfl⟩

theorem blames_formula {ts : List Token} {e : ParseError} (h : formula eof ts = .error e) :
    Blames eof ts e := by
  unfold formula at h
  split at h
  next hx =>
    cases h
    exact (heeds_chain heeds_wholeExpression _ ts).blames hx List.suffix_rfl
  next r hr =>
    exact (blames_finish h).mono
      ((heeds_chain heeds_wholeExpression _ ts).suffix hr List.suffix_rfl)

theorem heeds_typeName : HeedsAll eof (typeName eof) := by
  intro ts
  unfold typeName
  split
  next e hx => exact (heeds_expect _ ts).blames hx List.suffix_rfl
  next t ht => exact (heeds_expect _ ts).keep ht List.suffix_rfl rfl

theorem heeds_param : HeedsAll eof (param eof) := by
  intro ts
  unfold param
  split
  next e hx => exact (heeds_expect _ ts).blames hx List.suffix_rfl
  next name hname =>
    have hrest := (heeds_expect _ ts).suffix hname List.suffix_rfl
    split
    next e hx => exact (heeds_expect _ _).blames hx hrest
    next colon hcolon =>
      have hrest := (heeds_expect _ _).suffix hcolon hrest
      split
      next e hx => exact (heeds_typeName _).blames hx hrest
      next type htype => exact (heeds_typeName _).keep htype hrest rfl

theorem heeds_paramList : HeedsAll eof (paramList eof) := by
  intro ts
  fun_induction paramList eof ts with
  | case1 ts e hx => exact (heeds_param ts).blames hx List.suffix_rfl
  | case2 => exact heeds_eof
  | case3 ts p t rest _ hp _ e hx ih => exact ih.blames hx ((heeds_param ts).after hp)
  | case4 ts p t rest _ hp _ more hmore ih => exact ih.keep hmore ((heeds_param ts).after hp) rfl
  | case5 ts p t rest _ hp _ e hx =>
    exact (heeds_expect _ _).blames hx ((heeds_param ts).suffix hp List.suffix_rfl)
  | case6 ts p t rest _ hp _ closing hclosing =>
    exact (heeds_expect _ _).keep hclosing
      ((heeds_param ts).suffix hp List.suffix_rfl) rfl

theorem heeds_params : HeedsAll eof (params eof) := by
  intro ts
  cases ts with
  | nil => exact heeds_paramList []
  | cons t rest =>
    by_cases ht : t.kind = .rightParen
    · rw [params, if_pos ht]
      exact List.suffix_cons t rest
    · rw [params, if_neg ht]
      exact heeds_paramList _

theorem heeds_body : HeedsAll eof (body eof) := by
  intro ts
  unfold body
  split
  next brace hbrace =>
    have hrest := (heeds_expect _ ts).suffix hbrace List.suffix_rfl
    split
    next e hx => exact (heeds_closedChain heeds_wholeExpression _ _).blames hx hrest
    next r hr => exact (heeds_closedChain heeds_wholeExpression _ _).keep hr hrest rfl
  next =>
    split
    next e hx => exact (heeds_expect _ ts).blames hx List.suffix_rfl
    next equal hequal =>
      have hrest := (heeds_expect _ ts).suffix hequal List.suffix_rfl
      split
      next e hx => exact (heeds_wholeExpression _).blames hx hrest
      next r hr => exact (heeds_wholeExpression _).keep hr hrest rfl

theorem heeds_signature : HeedsAll eof (signature eof) := by
  intro ts
  unfold signature
  split
  next e hx => exact (heeds_expect _ ts).blames hx List.suffix_rfl
  next name hname =>
    have hrest := (heeds_expect _ ts).suffix hname List.suffix_rfl
    split
    next e hx => exact (heeds_expect _ _).blames hx hrest
    next paren hparen =>
      have hrest := (heeds_expect _ _).suffix hparen hrest
      split
      next e hx => exact (heeds_params _).blames hx hrest
      next ps hps =>
        have hrest := (heeds_params _).suffix hps hrest
        split
        next e hx => exact (heeds_expect _ _).blames hx hrest
        next colon hcolon =>
          have hrest := (heeds_expect _ _).suffix hcolon hrest
          split
          next e hx => exact (heeds_typeName _).blames hx hrest
          next result hresult => exact (heeds_typeName _).keep hresult hrest rfl

theorem heeds_definition : HeedsAll eof (definition eof) := by
  intro ts
  unfold definition
  split
  next e hx => exact (heeds_signature ts).blames hx List.suffix_rfl
  next s hs =>
    have hrest := (heeds_signature ts).suffix hs List.suffix_rfl
    split
    next e hx => exact (heeds_body _).blames hx hrest
    next b hb => exact (heeds_body _).keep hb hrest rfl

theorem blames_definitions {ts : List Token} {e : ParseError} (h : definitions eof ts = .error e) :
    Blames eof ts e := by
  fun_induction definitions eof ts with
  | case1 ts f hx =>
    cases h
    exact (heeds_definition ts).blames hx List.suffix_rfl
  | case2 => cases h
  | case3 => cases h
  | case4 ts d t rest _ hd _ _ f hx ih =>
    cases h
    exact (ih hx).mono ((heeds_definition ts).after hd)
  | case5 => cases h
  | case6 ts d t rest _ hd _ =>
    exact (blames_finish h).mono ((heeds_definition ts).suffix hd List.suffix_rfl)

end FormulaShell.Formula
