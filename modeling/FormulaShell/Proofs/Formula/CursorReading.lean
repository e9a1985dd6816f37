import FormulaShell.Proofs.Formula.CursorSteps

namespace FormulaShell.Formula

variable {α : Type} {eof : Token} {list ts rest : List Token}

section

variable {next : Walk Expr} {p : Parser Expr} {kinds : List TokenKind}

def Meaningful (kinds : List TokenKind) : Prop := ∀ kind ∈ kinds, (binaryOp? kind).isSome

theorem Meaningful.eof_notMem (hk : Meaningful kinds) : .eof ∉ kinds := fun h => nomatch hk _ h

theorem join_of_meaningful (hk : Meaningful kinds) {op : Token} (hop : op.kind ∈ kinds)
    (l r : Expr) :
    ∃ both, joinOperands op l r = .ok both ∧ ∀ i, Walk.join op l r i = .ok (both, i) := by
  obtain ⟨o, ho⟩ := Option.isSome_iff_exists.mp (hk op.kind hop)
  refine ⟨.binary o l r, by rw [joinOperands, ho], fun i => ?_⟩
  rw [Walk.join, ho]
  rfl

variable (hs : Sourced eof list) (hk : Meaningful kinds) (hnext : Tracks list next p)
include hs hk hnext

theorem agrees_leftRow (l : Expr) {rounds : Nat} (hr : ts.length < rounds) (hts : ts <:+ list) :
    Agrees list (Walk.leftRow (list ++ [eof]) kinds next rounds l (place list ts))
      (leftRest kinds p l ts) := by
  -- a loop with a cursor recurses on its rounds, and the parser on the rest that is then left
  induction rounds generalizing ts l with
  | zero => exact absurd hr (Nat.not_lt_zero _)
  | succ rounds ih =>
    rw [Walk.leftRow]
    cases ts with
    | nil =>
      have heof : (current eof []).kind ∉ kinds := hs.kind_current_nil ▸ hk.eof_notMem
      rw [peek_bind hts, if_neg heof, leftRest]
      exact agrees_pure rfl rfl hts
    | cons op rest =>
      have hrest := suffix_tail hts
      rw [peek_cons hts, leftRest]
      by_cases hop : op.kind ∈ kinds
      · rw [if_pos hop, if_pos hop, popAny_bind hs hts]
        split
        next e he => exact (hnext hrest).bind_error he
        next r left hlt hr' =>
          obtain ⟨both, hboth, hjoin⟩ := join_of_meaningful hk hop l r
          have hlast := ih both (Nat.lt_trans hlt (Nat.lt_of_succ_lt_succ hr))
            ((hnext hrest).suffix hr')
          rw [(hnext hrest).bind_ok hr', Walk.bind_ok (hjoin _), hboth]
          dsimp only
          split
          next e he => exact hlast.keep_error he
          next whole hwhole => exact hlast.keep hwhole rfl rfl
      · rw [if_neg hop, if_neg hop]
        exact agrees_pure rfl rfl hts

theorem agrees_rightRow {rounds : Nat} (hr : ts.length < rounds) (hts : ts <:+ list) :
    Agrees list (Walk.rightRow (list ++ [eof]) kinds next rounds (place list ts))
      (rightRow kinds p ts) := by
  induction rounds generalizing ts with
  | zero => exact absurd hr (Nat.not_lt_zero _)
  | succ rounds ih =>
    rw [Walk.rightRow, rightRow]
    split
    next e he => exact (hnext hts).bind_error he
    next l hlt hl =>
      have heof : (current eof []).kind ∉ kinds := hs.kind_current_nil ▸ hk.eof_notMem
      have hnil := (hnext hts).suffix hl
      rw [(hnext hts).bind_ok hl, peek_bind hnil, if_neg heof]
      exact agrees_pure rfl rfl hnil
    next l op rest hlt hl =>
      have hcons := (hnext hts).suffix hl
      rw [(hnext hts).bind_ok hl, peek_cons hcons]
      dsimp only
      by_cases hop : op.kind ∈ kinds
      · have hlast := ih (rest_lt_rounds hlt hr) (suffix_tail hcons)
        rw [if_pos hop, if_pos hop, popAny_bind hs hcons]
        split
        next e he => exact hlast.bind_error he
        next r hr' =>
          obtain ⟨both, hboth, hjoin⟩ := join_of_meaningful hk hop l r.value
          have hleft := hlast.suffix hr'
          rw [hlast.bind_ok hr', hjoin, hboth]
          exact Agrees.result (r := (r.map fun _ => both).after hlt) hleft
      · rw [if_neg hop, if_neg hop]
        exact agrees_pure rfl rfl hcons

theorem tracks_singlePair :
    Tracks list (Walk.singlePair (list ++ [eof]) kinds next) (singlePair kinds p) := by
  intro ts hts
  rw [Walk.singlePair, singlePair]
  split
  next e he => exact (hnext hts).bind_error he
  next l hlt hl =>
    have heof : (current eof []).kind ∉ kinds := hs.kind_current_nil ▸ hk.eof_notMem
    have hnil := (hnext hts).suffix hl
    rw [(hnext hts).bind_ok hl, peek_bind hnil, if_neg heof]
    exact agrees_pure rfl rfl hnil
  next l op rest hlt hl =>
    have hcons := (hnext hts).suffix hl
    have hrest := suffix_tail hcons
    rw [(hnext hts).bind_ok hl, peek_cons hcons]
    dsimp only
    by_cases hop : op.kind ∈ kinds
    · rw [if_pos hop, if_pos hop, popAny_bind hs hcons]
      split
      next e he => exact (hnext hrest).bind_error he
      next r hr =>
        obtain ⟨both, hboth, hjoin⟩ := join_of_meaningful hk hop l r.value
        have hleft := (hnext hrest).suffix hr
        rw [(hnext hrest).bind_ok hr, hjoin, hboth]
        exact Agrees.result (r := (r.map fun _ => both).after hlt) hleft
    · rw [if_neg hop, if_neg hop]
      exact agrees_pure rfl rfl hcons

end

theorem isSome_binaryOp?_iff (kind : TokenKind) :
    (binaryOp? kind).isSome ↔ ∃ l ∈ levels, kind ∈ l.kinds := by
  cases kind <;> decide

theorem meaningful_of_mem {l : Level} (hl : l ∈ levels) : Meaningful l.kinds :=
  fun kind hkind => (isSome_binaryOp?_iff kind).mpr ⟨l, hl, hkind⟩

section

variable {expr : Walk Expr} {p : Parser Expr} (hs : Sourced eof list)
include hs

theorem tracks_level {l : Level} (hl : l ∈ levels) (hnext : Tracks list expr p) :
    Tracks list (Walk.level (list ++ [eof]) l expr) (level l p) := by
  have hk := meaningful_of_mem hl
  obtain ⟨kinds, associativity⟩ := l
  cases associativity with
  | left =>
    intro ts hts
    rw [Walk.level, level]
    dsimp only
    split
    next e he => exact (hnext hts).bind_error he
    next first hfirst =>
      have hrest := (hnext hts).suffix hfirst
      have hrow := agrees_leftRow hs hk hnext first.value (length_lt_rounds eof hrest) hrest
      rw [(hnext hts).bind_ok hfirst]
      split
      next e he => exact hrow.keep_error he
      next whole hwhole => exact hrow.keep hwhole rfl rfl
  | right => exact fun ts hts => agrees_rightRow hs hk hnext (length_lt_rounds eof hts) hts
  | none => exact tracks_singlePair hs hk hnext

theorem tracks_expression (hnext : Tracks list expr p) :
    Tracks list (Walk.expression (list ++ [eof]) expr) (expression p) := by
  suffices ∀ ls, ls ⊆ levels →
      Tracks list (ls.foldr (Walk.level (list ++ [eof])) expr) (ls.foldr level p) from
    this levels (List.Subset.refl levels)
  intro ls hls
  induction ls with
  | nil => exact hnext
  | cons l ls ih =>
    rw [List.cons_subset] at hls
    exact tracks_level hs hls.1 (ih hls.2)

variable (he : Tracks list expr p) (stop : TokenKind)
include he

theorem agrees_chainRest {rounds : Nat} (hr : ts.length < rounds) (hts : ts <:+ list) :
    Agrees list (Walk.chainRest (list ++ [eof]) expr stop rounds (place list ts))
      (chainRest eof p stop ts) := by
  induction rounds generalizing ts with
  | zero => exact absurd hr (Nat.not_lt_zero _)
  | succ rounds ih =>
    rw [Walk.chainRest]
    cases ts with
    | nil =>
      rw [accept_bind_nil hs hts (by decide), chainRest]
      exact agrees_pure rfl rfl hts
    | cons t rest =>
      have hrest := suffix_tail hts
      rw [chainRest]
      by_cases ht : t.kind = .semicolon
      · rw [if_pos ht, accept_bind_of_eq hs hts ht, if_pos rfl, peek_bind hrest]
        by_cases hstop : (current eof rest).kind = stop
        · rw [if_pos hstop, if_pos hstop]
          exact agrees_pure rfl rfl hrest
        · rw [if_neg hstop, if_neg hstop]
          split
          next e hx => exact (he hrest).bind_error hx
          next item left hlt hitem =>
            have hlast := ih (Nat.lt_trans hlt (Nat.lt_of_succ_lt_succ hr))
              ((he hrest).suffix hitem)
            rw [(he hrest).bind_ok hitem]
            split
            next e hx => exact hlast.bind_error hx
            next more hmore => exact hlast.returns hmore rfl rfl
      · rw [if_neg ht, accept_bind_of_ne hts ht, if_neg Bool.false_ne_true]
        exact agrees_pure rfl rfl hts

theorem tracks_chain : Tracks list (Walk.chain (list ++ [eof]) expr stop) (chain eof p stop) := by
  intro ts hts
  rw [Walk.chain, chain]
  split
  next e hx => exact (he hts).bind_error hx
  next first hfirst =>
    have hrest := (he hts).suffix hfirst
    have hmore := agrees_chainRest hs he stop (length_lt_rounds eof hrest) hrest
    rw [(he hts).bind_ok hfirst]
    split
    next e hx => exact hmore.bind_error hx
    next more hx => exact hmore.returns hx rfl rfl

theorem tracks_closedChain (hstop : stop ≠ .eof) :
    Tracks list (Walk.closedChain (list ++ [eof]) expr stop) (closedChain eof p stop) := by
  intro ts hts
  have hchain := tracks_chain hs he stop hts
  rw [Walk.closedChain, closedChain]
  split
  next e hx => exact hchain.bind_error hx
  next inner hinner =>
    have hclose := agrees_pop hs stop hstop (hchain.suffix hinner)
    rw [hchain.bind_ok hinner]
    split
    next e hx => exact hclose.bind_error hx
    next closing hclosing => exact hclose.returns hclosing rfl rfl

theorem agrees_itemList (hstop : stop ≠ .eof) {rounds : Nat} (hr : ts.length < rounds)
    (hts : ts <:+ list) :
    Agrees list (Walk.itemList (list ++ [eof]) expr stop rounds (place list ts))
      (itemList eof p stop ts) := by
  induction rounds generalizing ts with
  | zero => exact absurd hr (Nat.not_lt_zero _)
  | succ rounds ih =>
    rw [Walk.itemList, itemList]
    split
    next e hx => exact (he hts).bind_error hx
    next item hlt hitem =>
      rw [(he hts).bind_ok hitem]
      exact agrees_following_nil hs stop hstop ((he hts).suffix hitem)
    next item t rest hlt hitem =>
      have hcons := (he hts).suffix hitem
      have hlast := ih (rest_lt_rounds hlt hr) (suffix_tail hcons)
      rw [(he hts).bind_ok hitem]
      refine agrees_following_cons hs stop hstop hcons hlast hlt (fun ht => ?_) fun ht => ?_
      · dsimp only
        rw [if_pos ht]
        cases itemList eof p stop rest <;> rfl
      · dsimp only
        rw [if_neg ht]
        cases expect eof stop (t :: rest) <;> rfl

theorem tracks_items (hstop : stop ≠ .eof) :
    Tracks list (Walk.items (list ++ [eof]) expr stop) (items eof p stop) := by
  intro ts hts
  have hlist := agrees_itemList hs he stop hstop (length_lt_rounds eof hts) hts
  rw [Walk.items]
  cases ts with
  | nil =>
    rw [accept_bind_nil hs hts hstop, items]
    exact hlist
  | cons t rest =>
    rw [items]
    by_cases ht : t.kind = stop
    · rw [accept_bind_of_eq hs hts ht, if_pos rfl, if_pos ht]
      exact agrees_pure rfl rfl (suffix_tail hts)
    · rw [accept_bind_of_ne hts ht, if_neg Bool.false_ne_true, if_neg ht]
      exact hlist

omit stop

theorem tracks_field (seen : List String) :
    Tracks list (Walk.field (list ++ [eof]) expr seen) (field eof p seen) := by
  intro ts hts
  have hname := agrees_pop hs .name (by decide) hts
  rw [Walk.field, field]
  split
  next e hx => exact hname.bind_error hx
  next name hx =>
    have hrest := hname.suffix hx
    have hcolon := agrees_pop hs .colon (by decide) hrest
    rw [hname.bind_ok hx]
    by_cases hseen : name.value.value ∈ seen
    · rw [if_pos hseen, if_pos hseen]
      exact agrees_fail _ rfl
    · rw [if_neg hseen, if_neg hseen]
      split
      next e hx => exact hcolon.bind_error hx
      next colon hx =>
        have hitem := he (hcolon.suffix hx)
        rw [hcolon.bind_ok hx]
        split
        next e hx => exact hitem.bind_error hx
        next item hx => exact hitem.returns hx rfl rfl

theorem agrees_fieldList (seen : List String) {rounds : Nat} (hr : ts.length < rounds)
    (hts : ts <:+ list) :
    Agrees list (Walk.fieldList (list ++ [eof]) expr seen rounds (place list ts))
      (fieldList eof p seen ts) := by
  induction rounds generalizing ts seen with
  | zero => exact absurd hr (Nat.not_lt_zero _)
  | succ rounds ih =>
    have hfield := tracks_field hs he seen hts
    rw [Walk.fieldList, fieldList]
    split
    next e hx => exact hfield.bind_error hx
    next f hlt hf =>
      rw [hfield.bind_ok hf]
      exact agrees_following_nil hs .rightBrace (by decide) (hfield.suffix hf)
    next f t rest hlt hf =>
      have hcons := hfield.suffix hf
      have hlast := ih (f.1 :: seen) (rest_lt_rounds hlt hr) (suffix_tail hcons)
      rw [hfield.bind_ok hf]
      refine agrees_following_cons hs .rightBrace (by decide) hcons hlast hlt (fun ht => ?_)
        fun ht => ?_
      · dsimp only
        rw [if_pos ht]
        cases fieldList eof p (f.1 :: seen) rest <;> rfl
      · dsimp only
        rw [if_neg ht]
        cases expect eof .rightBrace (t :: rest) <;> rfl

theorem agrees_fields {t : Token} (hts : t :: rest <:+ list) (ht : t.kind = .leftBrace) :
    Agrees list (Walk.fields (list ++ [eof]) expr (place list (t :: rest)))
      (fields eof p rest) := by
  have hbrace := agrees_pop hs .leftBrace (by decide) hts
  have hrest := suffix_tail hts
  have hlist := agrees_fieldList hs he [] (length_lt_rounds eof hrest) hrest
  rw [Walk.fields, hbrace.bind_ok (r := .used t t rest) (by rw [expect, if_pos ht]), Parsed.used]
  cases rest with
  | nil =>
    rw [accept_bind_nil hs hrest (by decide), fields]
    exact hlist
  | cons u rest =>
    rw [fields]
    by_cases hu : u.kind = .rightBrace
    · rw [accept_bind_of_eq hs hrest hu, if_pos rfl, if_pos hu]
      exact agrees_pure rfl rfl (suffix_tail hrest)
    · rw [accept_bind_of_ne hrest hu, if_neg Bool.false_ne_true, if_neg hu]
      exact hlist

theorem agrees_nameOrCall (t : Token) (hts : ts <:+ list) :
    Agrees list (Walk.nameOrCall (list ++ [eof]) expr t (place list ts))
      (nameOrCall eof p t ts) := by
  rw [Walk.nameOrCall]
  cases ts with
  | nil =>
    rw [accept_bind_nil hs hts (by decide), nameOrCall]
    exact agrees_pure rfl rfl hts
  | cons u rest =>
    rw [nameOrCall]
    by_cases hu : u.kind = .leftParen
    · have hitems := tracks_items hs he .rightParen (by decide) (suffix_tail hts)
      rw [accept_bind_of_eq hs hts hu, if_pos rfl, if_pos hu]
      split
      next e hx => exact hitems.bind_error hx
      next args hx => exact hitems.returns hx rfl rfl
    · rw [accept_bind_of_ne hts hu, if_neg Bool.false_ne_true, if_neg hu]
      exact agrees_pure rfl rfl hts

theorem tracks_atom : Tracks list (Walk.atom (list ++ [eof]) expr) (atom eof p) := by
  intro ts hts
  rw [Walk.atom]
  cases ts with
  | nil =>
    rw [peek_bind hts, atom]
    simp only [hs.kind_current_nil]
    exact agrees_fail eof rfl
  | cons t rest =>
    have hrest := suffix_tail hts
    rw [peek_cons hts, atom]
    cases hk : t.kind <;> dsimp only
    case number =>
      obtain ⟨x, hx⟩ := Option.isSome_iff_exists.mp (hs.number t (hts.subset List.mem_cons_self) hk)
      rw [popAny_bind hs hts, Walk.number, hx]
      exact agrees_pure rfl rfl hrest
    case string | trueWord | falseWord =>
      rw [popAny_bind hs hts]
      exact agrees_pure rfl rfl hrest
    case name =>
      have h := agrees_nameOrCall hs he t hrest
      rw [popAny_bind hs hts]
      cases hx : nameOrCall eof p t rest with
      | error e => exact h.keep_error hx
      | ok r => exact h.keep hx rfl rfl
    case leftParen =>
      have h := tracks_closedChain hs he .rightParen (by decide) hrest
      rw [popAny_bind hs hts]
      split
      next e hx => exact h.keep_error hx
      next inner hx => exact h.keep hx rfl rfl
    case leftBrace =>
      have h := agrees_fields hs he hts hk
      split
      next e hx => exact h.bind_error hx
      next fs hx => exact h.returns hx rfl rfl
    case leftBracket =>
      have h := tracks_items hs he .rightBracket (by decide) hrest
      rw [popAny_bind hs hts]
      split
      next e hx => exact h.bind_error hx
      next es hx => exact h.returns hx rfl rfl
    all_goals exact agrees_fail t rfl

end

section

variable (hs : Sourced eof list)
include hs

theorem agrees_suffixes (e : Expr) {rounds : Nat} (hr : ts.length < rounds) (hts : ts <:+ list) :
    Agrees list (Walk.suffixes (list ++ [eof]) rounds e (place list ts)) (suffixes eof e ts) := by
  induction rounds generalizing ts e with
  | zero => exact absurd hr (Nat.not_lt_zero _)
  | succ rounds ih =>
    rw [Walk.suffixes]
    cases ts with
    | nil =>
      rw [accept_bind_nil hs hts (by decide), if_neg Bool.false_ne_true,
        accept_bind_nil hs hts (by decide), if_neg Bool.false_ne_true, suffixes]
      exact agrees_pure rfl rfl hts
    | cons t rest =>
      have hrest := suffix_tail hts
      rw [suffixes]
      by_cases hpercent : t.kind = .percent
      · have hlast := ih (.percent e) (Nat.lt_of_succ_lt_succ hr) hrest
        rw [accept_bind_of_eq hs hts hpercent, if_pos rfl, if_pos hpercent]
        split
        next f hx => exact hlast.keep_error hx
        next r hx => exact hlast.keep hx rfl rfl
      · rw [accept_bind_of_ne hts hpercent, if_neg Bool.false_ne_true, if_neg hpercent]
        by_cases hdot : t.kind = .dot
        · have hname := agrees_pop hs .name (by decide) hrest
          rw [accept_bind_of_eq hs hts hdot, if_pos rfl, if_pos hdot]
          split
          next f hx => exact hname.bind_error hx
          next name left hlt hx =>
            have hlast := ih (.field e name.value) (Nat.lt_trans hlt (Nat.lt_of_succ_lt_succ hr))
              (hname.suffix hx)
            rw [hname.bind_ok hx]
            split
            next f hx => exact hlast.keep_error hx
            next r hx => exact hlast.keep hx rfl rfl
        · rw [accept_bind_of_ne hts hdot, if_neg Bool.false_ne_true, if_neg hdot]
          exact agrees_pure rfl rfl hts

theorem tracks_suffixed {expr : Walk Expr} {p : Parser Expr} (he : Tracks list expr p) :
    Tracks list (Walk.suffixed (list ++ [eof]) expr) (suffixed eof p) := by
  intro ts hts
  have hatom := tracks_atom hs he hts
  rw [Walk.suffixed, suffixed]
  split
  next e hx => exact hatom.bind_error hx
  next a ha =>
    have hrest := hatom.suffix ha
    have hlast := agrees_suffixes hs a.value (length_lt_rounds eof hrest) hrest
    rw [hatom.bind_ok ha]
    split
    next e hx => exact hlast.keep_error hx
    next r hx => exact hlast.keep hx rfl rfl

theorem tracks_operand (depth : Nat) :
    Tracks list (Walk.operand (list ++ [eof]) depth) (operand eof depth) := by
  induction depth with
  | zero =>
    intro ts hts
    rw [Walk.operand, peek_bind hts, operand]
    exact agrees_fail _ rfl
  | succ depth ih =>
    have hplain := tracks_suffixed hs (tracks_expression hs ih)
    intro ts hts
    rw [Walk.operand]
    cases ts with
    | nil =>
      rw [peek_bind hts, operand]
      simp only [hs.kind_current_nil]
      exact hplain hts
    | cons t rest =>
      have hsigned := ih (suffix_tail hts)
      rw [peek_cons hts, operand]
      cases hk : t.kind <;> dsimp only
      case minus | negation =>
        rw [popAny_bind hs hts]
        split
        next e hx => exact hsigned.bind_error hx
        next r hx => exact hsigned.returns hx rfl rfl
      case plus =>
        rw [popAny_bind hs hts]
        split
        next e hx => exact hsigned.keep_error hx
        next r hx => exact hsigned.keep hx rfl rfl
      all_goals exact hplain hts

theorem tracks_wholeExpression :
    Tracks list (Walk.wholeExpression (list ++ [eof])) (wholeExpression eof) :=
  tracks_expression hs (tracks_operand hs maxNesting)

theorem tracks_typeName : Tracks list (Walk.typeName (list ++ [eof])) (typeName eof) := by
  intro ts hts
  have hname := agrees_pop hs .name (by decide) hts
  rw [Walk.typeName, typeName]
  split
  next e hx => exact hname.bind_error hx
  next t hx => exact hname.returns hx rfl rfl

theorem tracks_param : Tracks list (Walk.param (list ++ [eof])) (param eof) := by
  intro ts hts
  have hname := agrees_pop hs .name (by decide) hts
  rw [Walk.param, param]
  split
  next e hx => exact hname.bind_error hx
  next name hx =>
    have hcolon := agrees_pop hs .colon (by decide) (hname.suffix hx)
    rw [hname.bind_ok hx]
    split
    next e hx => exact hcolon.bind_error hx
    next colon hx =>
      have htype := tracks_typeName hs (hcolon.suffix hx)
      rw [hcolon.bind_ok hx]
      split
      next e hx => exact htype.bind_error hx
      next type hx => exact htype.returns hx rfl rfl

theorem agrees_paramList {rounds : Nat} (hr : ts.length < rounds) (hts : ts <:+ list) :
    Agrees list (Walk.paramList (list ++ [eof]) rounds (place list ts)) (paramList eof ts) := by
  induction rounds generalizing ts with
  | zero => exact absurd hr (Nat.not_lt_zero _)
  | succ rounds ih =>
    have hparam := tracks_param hs hts
    rw [Walk.paramList, paramList]
    split
    next e hx => exact hparam.bind_error hx
    next p hlt hp =>
      rw [hparam.bind_ok hp]
      exact agrees_following_nil hs .rightParen (by decide) (hparam.suffix hp)
    next p t rest hlt hp =>
      have hcons := hparam.suffix hp
      have hlast := ih (rest_lt_rounds hlt hr) (suffix_tail hcons)
      rw [hparam.bind_ok hp]
      refine agrees_following_cons hs .rightParen (by decide) hcons hlast hlt (fun ht => ?_)
        fun ht => ?_
      · dsimp only
        rw [if_pos ht]
        cases paramList eof rest <;> rfl
      · dsimp only
        rw [if_neg ht]
        cases expect eof .rightParen (t :: rest) <;> rfl

theorem tracks_params : Tracks list (Walk.params (list ++ [eof])) (params eof) := by
  intro ts hts
  have hlist := agrees_paramList hs (length_lt_rounds eof hts) hts
  rw [Walk.params]
  cases ts with
  | nil =>
    rw [accept_bind_nil hs hts (by decide), params]
    exact hlist
  | cons t rest =>
    rw [params]
    by_cases ht : t.kind = .rightParen
    · rw [accept_bind_of_eq hs hts ht, if_pos rfl, if_pos ht]
      exact agrees_pure rfl rfl (suffix_tail hts)
    · rw [accept_bind_of_ne hts ht, if_neg Bool.false_ne_true, if_neg ht]
      exact hlist

theorem tracks_body : Tracks list (Walk.body (list ++ [eof])) (body eof) := by
  intro ts hts
  rw [Walk.body, body]
  split
  next brace hbrace =>
    have hrest := (agrees_pop hs .leftBrace (by decide) hts).suffix hbrace
    have hinner := tracks_closedChain hs (tracks_wholeExpression hs) .rightBrace (by decide) hrest
    rw [accept_bind_of_expect hs hts hbrace, if_pos rfl]
    split
    next e hx => exact hinner.keep_error hx
    next r hx => exact hinner.keep hx rfl rfl
  next hbrace =>
    have hequal := agrees_pop hs .equal (by decide) hts
    rw [accept_bind_of_expect_error hs hts (by decide) hbrace, if_neg Bool.false_ne_true]
    split
    next e hx => exact hequal.bind_error hx
    next equal hx =>
      have hwhole := tracks_wholeExpression hs (hequal.suffix hx)
      rw [hequal.bind_ok hx]
      split
      next e hx => exact hwhole.keep_error hx
      next r hx => exact hwhole.keep hx rfl rfl

theorem tracks_signature : Tracks list (Walk.signature (list ++ [eof])) (signature eof) := by
  intro ts hts
  have hname := agrees_pop hs .name (by decide) hts
  rw [Walk.signature, signature]
  split
  next e hx => exact hname.bind_error hx
  next name hx =>
    have hparen := agrees_pop hs .leftParen (by decide) (hname.suffix hx)
    rw [hname.bind_ok hx]
    split
    next e hx => exact hparen.bind_error hx
    next paren hx =>
      have hparams := tracks_params hs (hparen.suffix hx)
      rw [hparen.bind_ok hx]
      split
      next e hx => exact hparams.bind_error hx
      next ps hx =>
        have hcolon := agrees_pop hs .colon (by decide) (hparams.suffix hx)
        rw [hparams.bind_ok hx]
        split
        next e hx => exact hcolon.bind_error hx
        next colon hx =>
          have htype := tracks_typeName hs (hcolon.suffix hx)
          rw [hcolon.bind_ok hx]
          split
          next e hx => exact htype.bind_error hx
          next result hx => exact htype.returns hx rfl rfl

theorem tracks_definition : Tracks list (Walk.definition (list ++ [eof])) (definition eof) := by
  intro ts hts
  have hsignature := tracks_signature hs hts
  rw [Walk.definition, definition]
  split
  next e hx => exact hsignature.bind_error hx
  next s hx =>
    obtain ⟨⟨name, ps, result⟩, after, hlt⟩ := s
    have hbody := tracks_body hs (hsignature.suffix hx)
    rw [hsignature.bind_ok hx]
    dsimp only
    split
    next e hx => exact hbody.bind_error hx
    next b hx => exact hbody.returns hx rfl rfl

end

section

variable (hs : Sourced eof list)
include hs

theorem endsAlike_finish (value : α) (h : ts <:+ list) :
    EndsAlike (list ++ [eof]) (Walk.finish (list ++ [eof]) value (place list ts))
      (finish value ts) := by
  rw [Walk.finish, peek_bind h]
  cases ts with
  | nil =>
    rw [if_pos hs.kind_current_nil]
    exact .result (place_lt list [] eof)
  | cons t rest =>
    rw [if_neg (hs.kind_current_cons h)]
    exact .fault rfl

theorem endsAlike_formula :
    EndsAlike (list ++ [eof]) (Walk.formula (list ++ [eof]) 0) (formula eof list) := by
  have hplace : place list list = 0 := Nat.sub_self _
  have hchain := tracks_chain hs (tracks_wholeExpression hs) .eof (List.suffix_refl list)
  rw [Walk.formula, formula, ← hplace]
  split
  next e hx => exact hchain.endsAlike_error hx
  next r hx =>
    rw [hchain.bind_ok hx]
    exact endsAlike_finish hs r.value (hchain.suffix hx)

theorem endsAlike_definitionList {rounds : Nat} (hr : ts.length < rounds) (hts : ts <:+ list) :
    EndsAlike (list ++ [eof]) (Walk.definitionList (list ++ [eof]) rounds (place list ts))
      (definitions eof ts) := by
  induction rounds generalizing ts with
  | zero => exact absurd hr (Nat.not_lt_zero _)
  | succ rounds ih =>
    have hdefinition := tracks_definition hs hts
    rw [Walk.definitionList, definitions]
    split
    next e hx => exact hdefinition.endsAlike_error hx
    next d hlt hx =>
      have hnil := hdefinition.suffix hx
      rw [hdefinition.bind_ok hx, accept_bind_nil hs hnil (by decide), if_neg Bool.false_ne_true]
      exact endsAlike_finish hs [d] hnil
    next d t rest hlt hx =>
      have hcons := hdefinition.suffix hx
      have hrest := suffix_tail hcons
      rw [hdefinition.bind_ok hx]
      dsimp only
      by_cases ht : t.kind = .semicolon
      · rw [accept_bind_of_eq hs hcons ht, if_pos rfl, if_pos ht, peek_bind hrest]
        cases rest with
        | nil =>
          rw [if_pos hs.kind_current_nil, if_pos List.isEmpty_nil]
          exact endsAlike_finish hs [d] hrest
        | cons u rest =>
          have hlast := ih (rest_lt_rounds hlt hr) hrest
          rw [if_neg (hs.kind_current_cons hrest), List.isEmpty_cons, if_neg Bool.false_ne_true]
          split
          next e he => exact (he ▸ hlast).map (d :: ·)
          next more hmore => exact (hmore ▸ hlast).map (d :: ·)
      · rw [accept_bind_of_ne hcons ht, if_neg Bool.false_ne_true, if_neg ht]
        exact endsAlike_finish hs [d] hcons

theorem endsAlike_definitions :
    EndsAlike (list ++ [eof]) (Walk.definitions (list ++ [eof]) 0) (definitions eof list) := by
  have hplace : place list list = 0 := Nat.sub_self _
  have hsuffix := List.suffix_refl list
  rw [Walk.definitions, ← hplace]
  exact endsAlike_definitionList hs (length_lt_rounds eof hsuffix) hsuffix

end

end FormulaShell.Formula
