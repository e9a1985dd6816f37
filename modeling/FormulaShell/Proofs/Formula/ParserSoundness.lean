import FormulaShell.Proofs.Formula.Grammar

namespace FormulaShell.Formula

variable {n : Nat}

def Derives (s : Symbol) (n : Nat) (ts : List Token) (v : s.Value) (rest : List Token) : Prop :=
  ∃ d : Derivation s, d.tokens ++ rest = ts ∧ d.value = v ∧ d.nesting < n

/-- What a parser of the symbol has used is derived. -/
def Sound (s : Symbol) (n : Nat) (p : Parser s.Value) : Prop :=
  ∀ ⦃ts v rest h⦄, p ts = .ok ⟨v, rest, h⟩ → Derives s n ts v rest

theorem exists_operator {l : Level} {op : Token} {x y e : Expr} (hm : op.kind ∈ l.kinds)
    (h : joinOperands op x y = .ok e) :
    ∃ o : Operator l, o.token = op ∧ e = .binary o.op x y := by
  unfold joinOperands at h
  split at h
  next o ho => exact ⟨⟨op, o, hm, ho⟩, rfl, (Except.ok.inj h).symm⟩
  next => cases h

section

variable {l : Level} {ls : List Level} {next : Parser Expr}

theorem left_sound (hl : l.associativity = .left) (hnext : Sound (.row ls) n next) {e v : Expr}
    {ts rest : List Token} (a : Derivation (.row (l :: ls))) (hv : a.value = e) (hn : a.nesting < n)
    {hlt : rest.length < ts.length + 1} (h : leftRest l.kinds next e ts = .ok ⟨v, rest, hlt⟩) :
    Derives (.row (l :: ls)) n (a.tokens ++ ts) v rest := by
  fun_induction leftRest l.kinds next e ts generalizing a with
  | case1 e =>
    cases h
    exact ⟨a, rfl, hv, hn⟩
  | case2 | case3 | case4 => cases h
  | case5 e op ts hop y left hlt hy both hboth whole hwhole ih =>
    cases h
    obtain ⟨b, rfl, hbv, hbn⟩ := hnext hy
    obtain ⟨o, rfl, rfl⟩ := exists_operator hop hboth
    obtain ⟨d, hd, hdv, hdn⟩ := ih (.left hl a o b) (by rw [Derivation.value, hv, hbv])
      (Nat.max_lt.mpr ⟨hn, hbn⟩) hwhole
    exact ⟨d, by simp [hd], hdv, hdn⟩
  | case6 e op ts hop =>
    cases h
    exact ⟨a, rfl, hv, hn⟩

theorem right_sound (hl : l.associativity = .right) (hnext : Sound (.row ls) n next) :
    Sound (.row (l :: ls)) n (rightRow l.kinds next) := by
  intro ts v rest hlt h
  fun_induction rightRow l.kinds next ts generalizing v rest with
  | case1 | case3 | case4 => cases h
  | case2 ts e hlt' he =>
    cases h
    obtain ⟨a, ha⟩ := hnext he
    exact ⟨.tighter a, ha⟩
  | case5 ts x op left hlt' hx hop r hr both hboth ih =>
    obtain ⟨y, rest', hlt''⟩ := r
    cases h
    obtain ⟨a, rfl, hav, han⟩ := hnext hx
    obtain ⟨b, rfl, hbv, hbn⟩ := ih hr
    obtain ⟨o, rfl, rfl⟩ := exists_operator hop hboth
    exact ⟨.right hl a o b, List.append_assoc .., by rw [Derivation.value, hav, hbv]; rfl,
      Nat.max_lt.mpr ⟨han, hbn⟩⟩
  | case6 ts x op left hlt' hx hop =>
    cases h
    obtain ⟨a, ha⟩ := hnext hx
    exact ⟨.tighter a, ha⟩

theorem single_sound (hl : l.associativity = .none) (hnext : Sound (.row ls) n next) :
    Sound (.row (l :: ls)) n (singlePair l.kinds next) := by
  intro ts v rest hlt
  fun_cases singlePair l.kinds next ts with
  | case1 | case3 | case4 => nofun
  | case2 e hlt' he =>
    rintro ⟨⟩
    obtain ⟨a, ha⟩ := hnext he
    exact ⟨.tighter a, ha⟩
  | case5 x op left hlt' hx hop r hr both hboth =>
    obtain ⟨y, rest', hlt''⟩ := r
    rintro ⟨⟩
    obtain ⟨a, rfl, hav, han⟩ := hnext hx
    obtain ⟨b, rfl, hbv, hbn⟩ := hnext hr
    obtain ⟨o, rfl, rfl⟩ := exists_operator hop hboth
    exact ⟨.single hl a o b, List.append_assoc .., by rw [Derivation.value, hav, hbv]; rfl,
      Nat.max_lt.mpr ⟨han, hbn⟩⟩
  | case6 x op left hlt' hx hop =>
    rintro ⟨⟩
    obtain ⟨a, ha⟩ := hnext hx
    exact ⟨.tighter a, ha⟩

theorem level_sound (hnext : Sound (.row ls) n next) : Sound (.row (l :: ls)) n (level l next) := by
  obtain ⟨kinds, associativity⟩ := l
  cases associativity with
  | left =>
    intro ts v rest hlt h
    cases hf : next ts with
    | error e => simp [level, hf] at h
    | ok first =>
      obtain ⟨x, left, hlt'⟩ := first
      cases hw : leftRest kinds next x left with
      | error e => simp [level, hf, hw] at h
      | ok whole =>
        obtain ⟨y, left', hlt''⟩ := whole
        simp only [level, hf, hw, Except.ok.injEq] at h
        cases h
        obtain ⟨a, rfl, hav, han⟩ := hnext hf
        exact left_sound rfl hnext (.tighter a) hav han hw
  | right => exact right_sound rfl hnext
  | none => exact single_sound rfl hnext

theorem rows_sound (hnext : Sound .operand n next) :
    Sound (.row ls) n (ls.foldr level next) := by
  induction ls with
  | nil =>
    intro ts v rest hlt h
    obtain ⟨e, he⟩ := hnext h
    exact ⟨.operand e, he⟩
  | cons l ls ih => exact level_sound ih

end

section

variable {eof : Token} {expr : Parser Expr}

theorem expect_sound {kind : TokenKind} {t : Token} {ts rest : List Token}
    {hlt : rest.length < ts.length} (h : expect eof kind ts = .ok ⟨t, rest, hlt⟩) :
    ∃ m : Terminal kind, m.1 = t ∧ ts = t :: rest := by
  cases ts with
  | nil => cases h
  | cons t rest =>
    rw [expect] at h
    split at h
    next hk =>
      cases h
      exact ⟨⟨t, hk⟩, rfl, rfl⟩
    next => cases h

theorem suffixes_sound {e v : Expr} {ts rest : List Token} (a : Derivation .suffixed)
    (hv : a.value = e) (hn : a.nesting < n) {hlt : rest.length < ts.length + 1}
    (h : suffixes eof e ts = .ok ⟨v, rest, hlt⟩) : Derives .suffixed n (a.tokens ++ ts) v rest := by
  fun_induction suffixes eof e ts generalizing a v rest with
  | case1 | case7 =>
    cases h
    exact ⟨a, rfl, hv, hn⟩
  | case2 | case4 | case5 => cases h
  | case3 e t ts hk r hr ih =>
    obtain ⟨w, rest', hlt'⟩ := r
    cases h
    obtain ⟨d, hd, hdv, hdn⟩ := ih (.percent a ⟨t, hk⟩) (by rw [Derivation.value, hv]) hn hr
    exact ⟨d, hd.trans (by simp), hdv, hdn⟩
  | case6 e t ts hp hk name left hlt' hname r hr ih =>
    obtain ⟨w, rest', hlt''⟩ := r
    cases h
    obtain ⟨m, rfl, rfl⟩ := expect_sound hname
    obtain ⟨d, hd, hdv, hdn⟩ := ih (.field a ⟨t, hk⟩ m) (by rw [Derivation.value, hv]) hn hr
    exact ⟨d, hd.trans (by simp), hdv, hdn⟩

theorem list_sound (he : Sound .expression n expr) {stop : TokenKind} {ts rest : List Token}
    {v : List Expr} {hlt : rest.length < ts.length}
    (h : itemList eof expr stop ts = .ok ⟨v, rest, hlt⟩) :
    ∃ close : Terminal stop, Derives .list n ts v (close.1 :: rest) := by
  fun_induction itemList eof expr stop ts generalizing v rest with
  | case1 | case2 | case3 | case5 => cases h
  | case4 ts item t left hlt' hitem hk r hr ih =>
    obtain ⟨es, rest', hlt''⟩ := r
    cases h
    obtain ⟨e, rfl, hev, hen⟩ := he hitem
    obtain ⟨close, d, hd, hdv, hdn⟩ := ih hr
    have htokens : (Derivation.consItem e ⟨t, hk⟩ d).tokens ++ close.1 :: rest' =
        e.tokens ++ t :: left := by simp [hd]
    exact ⟨close, .consItem e ⟨t, hk⟩ d, htokens, by rw [Derivation.value, hev, hdv]; rfl,
      Nat.max_lt.mpr ⟨hen, hdn⟩⟩
  | case6 ts item t left hlt' hitem hk r hr =>
    obtain ⟨c, rest', hlt''⟩ := r
    cases h
    obtain ⟨e, rfl, hev, hen⟩ := he hitem
    obtain ⟨close, rfl, hc⟩ := expect_sound hr
    cases hc
    exact ⟨close, .lastItem e, rfl, by rw [Derivation.value, hev]; rfl, hen⟩

theorem items_sound (he : Sound .expression n expr) {stop : TokenKind} {ts rest : List Token}
    {v : List Expr} {hlt : rest.length < ts.length}
    (h : items eof expr stop ts = .ok ⟨v, rest, hlt⟩) :
    ∃ close : Terminal stop, Derives .items (n + 1) ts v (close.1 :: rest) := by
  have hlist {ts : List Token} {hlt} (h : itemList eof expr stop ts = .ok ⟨v, rest, hlt⟩) :
      ∃ close : Terminal stop, Derives .items (n + 1) ts v (close.1 :: rest) := by
    obtain ⟨close, d, hd, hdv, hdn⟩ := list_sound he h
    exact ⟨close, .someItems d, hd, hdv, Nat.succ_lt_succ hdn⟩
  cases ts with
  | nil => exact hlist h
  | cons t ts =>
    rw [items] at h
    split at h
    next hk =>
      cases h
      exact ⟨⟨t, hk⟩, .noItems, rfl, rfl, Nat.succ_pos n⟩
    next => exact hlist h

theorem field_sound (he : Sound .expression n expr) {taken : List String} {ts rest : List Token}
    {f : String × Expr} {hlt : rest.length < ts.length}
    (h : field eof expr taken ts = .ok ⟨f, rest, hlt⟩) :
    ∃ (name : Terminal .name) (colon : Terminal .colon) (e : Derivation .expression),
      name.1.value ∉ taken ∧ name.1 :: colon.1 :: (e.tokens ++ rest) = ts ∧
        (name.1.value, e.value) = f ∧ e.nesting < n := by
  revert h
  fun_cases field eof expr taken ts with
  | case1 | case2 | case3 | case4 => rintro ⟨⟩
  | case5 name hname hfresh colon hcolon item hitem =>
    rintro ⟨⟩
    obtain ⟨name, ts', _⟩ := name
    obtain ⟨colon, ts'', _⟩ := colon
    obtain ⟨item, rest, _⟩ := item
    obtain ⟨name, rfl, rfl⟩ := expect_sound hname
    obtain ⟨colon, rfl, hc⟩ := expect_sound hcolon
    obtain rfl : ts' = colon.1 :: ts'' := hc
    obtain ⟨e, hd, rfl, hen⟩ := he hitem
    obtain rfl : e.tokens ++ rest = ts'' := hd
    exact ⟨name, colon, e, hfresh, rfl, rfl, hen⟩

theorem fields_sound (he : Sound .expression n expr) {taken : List String} {ts rest : List Token}
    {v : List (String × Expr)} {hlt : rest.length < ts.length}
    (h : fieldList eof expr taken ts = .ok ⟨v, rest, hlt⟩) :
    ∃ close : Terminal .rightBrace, Derives (.fields taken) n ts v (close.1 :: rest) := by
  fun_induction fieldList eof expr taken ts generalizing v rest with
  | case1 | case2 | case3 | case5 => cases h
  | case4 taken ts f t left hlt' hf hk r hr ih =>
    obtain ⟨fs, rest', hlt''⟩ := r
    cases h
    obtain ⟨name, colon, e, hfresh, rfl, rfl, hen⟩ := field_sound he hf
    obtain ⟨close, d, hd, hdv, hdn⟩ := ih hr
    have htokens : (Derivation.consField name hfresh colon e ⟨t, hk⟩ d).tokens ++ close.1 :: rest' =
        name.1 :: colon.1 :: (e.tokens ++ t :: left) := by simp [hd]
    exact ⟨close, .consField name hfresh colon e ⟨t, hk⟩ d, htokens,
      by rw [Derivation.value, hdv]; rfl, Nat.max_lt.mpr ⟨hen, hdn⟩⟩
  | case6 taken ts f t left hlt' hf hk r hr =>
    obtain ⟨c, rest', hlt''⟩ := r
    cases h
    obtain ⟨name, colon, e, hfresh, rfl, rfl, hen⟩ := field_sound he hf
    obtain ⟨close, rfl, hc⟩ := expect_sound hr
    cases hc
    exact ⟨close, .lastField name hfresh colon e, rfl, rfl, hen⟩

theorem entries_sound (he : Sound .expression n expr) {ts rest : List Token}
    {v : List (String × Expr)} {hlt : rest.length < ts.length}
    (h : fields eof expr ts = .ok ⟨v, rest, hlt⟩) :
    ∃ close : Terminal .rightBrace, Derives .entries (n + 1) ts v (close.1 :: rest) := by
  have hlist {ts : List Token} {hlt} (h : fieldList eof expr [] ts = .ok ⟨v, rest, hlt⟩) :
      ∃ close : Terminal .rightBrace, Derives .entries (n + 1) ts v (close.1 :: rest) := by
    obtain ⟨close, d, hd, hdv, hdn⟩ := fields_sound he h
    exact ⟨close, .someEntries d, hd, hdv, Nat.succ_lt_succ hdn⟩
  cases ts with
  | nil => exact hlist h
  | cons t ts =>
    rw [fields] at h
    split at h
    next hk =>
      cases h
      exact ⟨⟨t, hk⟩, .noEntries, rfl, rfl, Nat.succ_pos n⟩
    next => exact hlist h

theorem chainRest_sound (he : Sound .expression n expr) {stop : TokenKind} {ts rest : List Token}
    {v : List Expr} {hlt : rest.length < ts.length + 1} (a : Derivation .expression)
    (hn : a.nesting < n) (h : chainRest eof expr stop ts = .ok ⟨v, rest, hlt⟩) :
    Derives .chain n (a.tokens ++ ts) (a.value :: v) rest := by
  fun_induction chainRest eof expr stop ts generalizing a v rest with
  | case1 | case6 =>
    cases h
    exact ⟨.lastLink a, rfl, rfl, hn⟩
  | case2 t ts hk hstop =>
    cases h
    exact ⟨.endLink a ⟨t, hk⟩, List.append_assoc .., rfl, hn⟩
  | case3 | case4 => cases h
  | case5 t ts hk hstop item left hlt' hitem more hmore ih =>
    obtain ⟨es, rest', hlt''⟩ := more
    cases h
    obtain ⟨b, rfl, rfl, hbn⟩ := he hitem
    obtain ⟨d, hd, hdv, hdn⟩ := ih b hbn hmore
    have htokens : (Derivation.consLink a ⟨t, hk⟩ d).tokens ++ rest' =
        a.tokens ++ t :: (b.tokens ++ left) := by simp [hd]
    exact ⟨.consLink a ⟨t, hk⟩ d, htokens, by rw [Derivation.value, hdv]; rfl,
      Nat.max_lt.mpr ⟨hn, hdn⟩⟩

theorem chainOf_eq (e : Expr) (es : List Expr) : chainOf e es = inSequence (e :: es) := by
  cases es <;> rfl

theorem chain_sound (he : Sound .expression n expr) {stop : TokenKind} {ts rest : List Token}
    {v : Expr} {hlt : rest.length < ts.length} (h : chain eof expr stop ts = .ok ⟨v, rest, hlt⟩) :
    ∃ es, inSequence es = v ∧ Derives .chain n ts es rest := by
  revert h
  fun_cases chain eof expr stop ts with
  | case1 | case2 => rintro ⟨⟩
  | case3 first hfirst more hmore =>
    rintro ⟨⟩
    obtain ⟨e, left, _⟩ := first
    obtain ⟨es, rest, _⟩ := more
    obtain ⟨a, rfl, rfl, han⟩ := he hfirst
    exact ⟨a.value :: es, (chainOf_eq a.value es).symm, chainRest_sound he a han hmore⟩

theorem closedChain_sound (he : Sound .expression n expr) {stop : TokenKind} {ts rest : List Token}
    {v : Expr} {hlt : rest.length < ts.length}
    (h : closedChain eof expr stop ts = .ok ⟨v, rest, hlt⟩) :
    ∃ es, inSequence es = v ∧ ∃ close : Terminal stop, Derives .chain n ts es (close.1 :: rest) := by
  revert h
  fun_cases closedChain eof expr stop ts with
  | case1 | case2 => rintro ⟨⟩
  | case3 inner hinner closing hclosing =>
    rintro ⟨⟩
    obtain ⟨e, left, _⟩ := inner
    obtain ⟨c, rest, _⟩ := closing
    obtain ⟨es, hes, d⟩ := chain_sound he hinner
    obtain ⟨close, rfl, rfl⟩ := expect_sound hclosing
    exact ⟨es, hes, close, d⟩

theorem nameOrCall_sound (he : Sound .expression n expr) {v : Expr} {ts rest : List Token}
    (name : Terminal .name) {hlt : rest.length < ts.length + 1}
    (h : nameOrCall eof expr name.1 ts = .ok ⟨v, rest, hlt⟩) :
    Derives .atom (n + 1) (name.1 :: ts) v rest := by
  cases ts with
  | nil =>
    cases h
    exact ⟨.name name, rfl, rfl, Nat.succ_pos n⟩
  | cons p ts =>
    rw [nameOrCall] at h
    split at h
    next hp =>
      cases hargs : items eof expr .rightParen ts with
      | error e => simp [hargs] at h
      | ok args =>
        obtain ⟨es, rest, _⟩ := args
        simp only [hargs] at h
        cases h
        obtain ⟨close, d, rfl, rfl, hdn⟩ := items_sound he hargs
        have htokens : (Derivation.call name ⟨p, hp⟩ d close).tokens ++ rest =
            name.1 :: p :: (d.tokens ++ close.1 :: rest) := by simp
        exact ⟨.call name ⟨p, hp⟩ d close, htokens, rfl, hdn⟩
    next =>
      cases h
      exact ⟨.name name, rfl, rfl, Nat.succ_pos n⟩

theorem atom_sound (he : Sound .expression n expr) : Sound .atom (n + 1) (atom eof expr) := by
  intro ts v rest hlt h
  cases ts with
  | nil => cases h
  | cons t ts =>
    rw [atom] at h
    split at h
    next hk =>
      split at h
      next x hx =>
        cases h
        exact ⟨.number ⟨t, hk⟩ x hx, rfl, rfl, Nat.succ_pos n⟩
      next => cases h
    next hk =>
      cases h
      exact ⟨.text ⟨t, hk⟩, rfl, rfl, Nat.succ_pos n⟩
    next hk =>
      cases h
      exact ⟨.truth ⟨t, hk⟩, rfl, rfl, Nat.succ_pos n⟩
    next hk =>
      cases h
      exact ⟨.falsehood ⟨t, hk⟩, rfl, rfl, Nat.succ_pos n⟩
    next hk => exact nameOrCall_sound he ⟨t, hk⟩ h
    next hk =>
      cases hinner : closedChain eof expr .rightParen ts with
      | error e => simp [hinner] at h
      | ok inner =>
        obtain ⟨e, rest, _⟩ := inner
        simp only [hinner] at h
        cases h
        obtain ⟨es, rfl, close, d, rfl, rfl, hdn⟩ := closedChain_sound he hinner
        have htokens : (Derivation.group ⟨t, hk⟩ d close).tokens ++ rest =
            t :: (d.tokens ++ close.1 :: rest) := by simp
        exact ⟨.group ⟨t, hk⟩ d close, htokens, rfl, Nat.succ_lt_succ hdn⟩
    next hk =>
      cases hfs : fields eof expr ts with
      | error e => simp [hfs] at h
      | ok fs =>
        obtain ⟨fs, rest, _⟩ := fs
        simp only [hfs] at h
        cases h
        obtain ⟨close, d, rfl, rfl, hdn⟩ := entries_sound he hfs
        have htokens : (Derivation.record ⟨t, hk⟩ d close).tokens ++ rest =
            t :: (d.tokens ++ close.1 :: rest) := by simp
        exact ⟨.record ⟨t, hk⟩ d close, htokens, rfl, hdn⟩
    next hk =>
      cases hes : items eof expr .rightBracket ts with
      | error e => simp [hes] at h
      | ok es =>
        obtain ⟨es, rest, _⟩ := es
        simp only [hes] at h
        cases h
        obtain ⟨close, d, rfl, rfl, hdn⟩ := items_sound he hes
        have htokens : (Derivation.table ⟨t, hk⟩ d close).tokens ++ rest =
            t :: (d.tokens ++ close.1 :: rest) := by simp
        exact ⟨.table ⟨t, hk⟩ d close, htokens, rfl, hdn⟩
    next => cases h
    next => cases h

theorem suffixed_sound (he : Sound .expression n expr) :
    Sound .suffixed (n + 1) (suffixed eof expr) := by
  intro ts v rest hlt
  fun_cases suffixed eof expr ts with
  | case1 | case2 => rintro ⟨⟩
  | case3 a ha more hmore =>
    rintro ⟨⟩
    obtain ⟨e, left, _⟩ := a
    obtain ⟨v, rest, _⟩ := more
    obtain ⟨a, rfl, hav, han⟩ := atom_sound he ha
    exact suffixes_sound (.bare a) hav han hmore

end

variable {eof : Token}

theorem operand_sound (n : Nat) : Sound .operand n (operand eof n) := by
  induction n with
  | zero =>
    intro ts v rest hlt h
    cases h
  | succ n ih =>
    have hsuffixed : Sound .operand (n + 1) (suffixed eof (expression (operand eof n))) := by
      intro ts v rest hlt h
      obtain ⟨e, he⟩ := suffixed_sound (rows_sound ih) h
      exact ⟨.unsigned e, he⟩
    intro ts v rest hlt h
    cases ts with
    | nil => exact hsuffixed h
    | cons t ts =>
      rw [operand] at h
      cases ho : operand eof n ts with
      | error f =>
        simp only [ho] at h
        split at h
        next => cases h
        next => cases h
        next => cases h
        next => exact hsuffixed h
      | ok r =>
        obtain ⟨x, left, _⟩ := r
        obtain ⟨e, rfl, rfl, hen⟩ := ih ho
        have hsigned (sign : Sign) (ht : sign.token = t) {v : Expr} (hv : sign.apply e.value = v) :
            Derives .operand (n + 1) (t :: (e.tokens ++ left)) v left :=
          ⟨.signed sign e, by rw [← ht]; rfl, hv, Nat.succ_lt_succ hen⟩
        simp only [ho] at h
        split at h
        next hk =>
          cases h
          exact hsigned ⟨t, by simp [hk]⟩ rfl (by simp [Sign.apply, hk, Parsed.map])
        next hk =>
          cases h
          exact hsigned ⟨t, by simp [hk]⟩ rfl (by simp [Sign.apply, hk, Parsed.map])
        next hk =>
          cases h
          exact hsigned ⟨t, by simp [hk]⟩ rfl (by simp [Sign.apply, hk, Parsed.map])
        next => exact hsuffixed h

theorem wholeExpression_sound : Sound .expression maxNesting (wholeExpression eof) :=
  rows_sound (operand_sound maxNesting)

theorem formula_sound {ts : List Token} {e : Expr} (h : formula eof ts = .ok e) :
    ∃ d : Derivation .chain, d.tokens = ts ∧ inSequence d.value = e ∧ d.nesting < maxNesting := by
  revert h
  fun_cases formula eof ts with
  | case1 => rintro ⟨⟩
  | case2 r hr =>
    obtain ⟨v, rest, _⟩ := r
    cases rest with
    | cons t rest => rintro ⟨⟩
    | nil =>
      rintro ⟨⟩
      obtain ⟨es, rfl, d, hd, rfl, hdn⟩ := chain_sound wholeExpression_sound hr
      exact ⟨d, (List.append_nil _).symm.trans hd, rfl, hdn⟩

end FormulaShell.Formula
