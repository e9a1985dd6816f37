import FormulaShell.Proofs.Formula.Lookahead

namespace FormulaShell.Formula

theorem Operator.eq_of_token {l : Level} {o o' : Operator l} (h : o.token = o'.token) : o = o' := by
  obtain ⟨t, op, hm, ho⟩ := o
  obtain ⟨t', op', hm', ho'⟩ := o'
  obtain rfl : t = t' := h
  obtain rfl : op = op' := Option.some.inj (ho.symm.trans ho')
  rfl

theorem Sign.eq_of_token {sign sign' : Sign} (h : sign.token = sign'.token) : sign = sign' := by
  obtain ⟨t, ht⟩ := sign
  obtain ⟨t', ht'⟩ := sign'
  obtain rfl : t = t' := h
  rfl

/-- The second derivation is the first one with the tokens after it, taken in from the left. -/
inductive Extends : {s : Symbol} → Derivation s → Derivation s → List Token → Prop where
  | refl {s : Symbol} (d : Derivation s) : Extends d d []
  | left {l : Level} {ls : List Level} {h : l.associativity = .left}
      {a d : Derivation (.row (l :: ls))} {op : Operator l} {b : Derivation (.row ls)}
      {more : List Token} : Extends (.left h a op b) d more →
      Extends a d (op.token :: (b.tokens ++ more))
  | percent {e d : Derivation .suffixed} {mark : Terminal .percent} {more : List Token} :
      Extends (.percent e mark) d more → Extends e d (mark.1 :: more)
  | field {e d : Derivation .suffixed} {dot : Terminal .dot} {name : Terminal .name}
      {more : List Token} : Extends (.field e dot name) d more →
      Extends e d (dot.1 :: name.1 :: more)

namespace Extends

theorem trans {s : Symbol} {d d' d'' : Derivation s} {ts ts' : List Token} (h : Extends d d' ts)
    (h' : Extends d' d'' ts') : Extends d d'' (ts ++ ts') := by
  induction h with
  | refl => exact h'
  | left _ ih => simpa using (ih h').left
  | percent _ ih => exact (ih h').percent
  | field _ ih => exact (ih h').field

theorem tokens {s : Symbol} {d d' : Derivation s} {ts : List Token} (h : Extends d d' ts) :
    d'.tokens = d.tokens ++ ts := by
  induction h with
  | refl => simp
  | left _ ih | percent _ ih | field _ ih => simp [ih]

end Extends

namespace Symbol

def first : Symbol → Symbol
  | row (l :: ls) => if l.associativity = .left then row ls else row (l :: ls)
  | suffixed => atom
  | s => s

end Symbol

theorem Free.first {s : Symbol} {rest : List Token} (h : Free s rest) : Free s.first rest := by
  unfold Symbol.first
  split
  next l ls =>
    split
    · exact h.tighter
    · exact h
  next => exact h.mono (by decide)
  next => exact h

theorem exists_extends_tighter {l : Level} {ls : List Level} (hl : l.associativity = .left) :
    (d : Derivation (.row (l :: ls))) → ∃ e more, Extends (.tighter e) d more
  | .tighter e => ⟨e, [], .refl _⟩
  | .left h a op b =>
    let ⟨e, _, he⟩ := exists_extends_tighter hl a
    ⟨e, _, he.trans (.left (.refl (.left h a op b)))⟩
  | .right h .. => absurd (h.symm.trans hl) (by decide)
  | .single h .. => absurd (h.symm.trans hl) (by decide)

theorem exists_extends_bare : (d : Derivation .suffixed) → ∃ e more, Extends (.bare e) d more
  | .bare e => ⟨e, [], .refl _⟩
  | .percent e mark =>
    let ⟨a, _, ha⟩ := exists_extends_bare e
    ⟨a, _, ha.trans (.percent (.refl (.percent e mark)))⟩
  | .field e dot name =>
    let ⟨a, _, ha⟩ := exists_extends_bare e
    ⟨a, _, ha.trans (.field (.refl (.field e dot name)))⟩

/-- Another derivation of tokens that start in the same way extends this one, as far as the loop of
the symbol can go on. -/
def Determined {s : Symbol} (d : Derivation s) : Prop :=
  ∀ ⦃d' : Derivation s⦄ ⦃rest rest'⦄, Free s.first rest → Free s rest' →
    d.tokens ++ rest = d'.tokens ++ rest' → ∃ more, Extends d d' more ∧ rest = more ++ rest'

/-- Another derivation of tokens that start in the same way is the same. -/
def Settled {s : Symbol} (d : Derivation s) : Prop :=
  ∀ ⦃d' : Derivation s⦄ ⦃rest rest'⦄, Free s rest → Free s rest' →
    d.tokens ++ rest = d'.tokens ++ rest' → d = d' ∧ rest = rest'

theorem Determined.settled {s : Symbol} {d : Derivation s} (h : Determined d) : Settled d := by
  intro d' rest rest' hfree hfree' htokens
  obtain ⟨more, hmore, rfl⟩ := h hfree.first hfree' htokens
  cases hmore with
  | refl => exact ⟨rfl, rfl⟩
  | @left _ _ _ _ _ op => exact absurd (List.mem_append_left _ op.mem) (hfree _ rfl)
  | @percent _ _ mark => exact absurd (by rw [mark.2]; decide) (hfree _ rfl)
  | @field _ _ dot => exact absurd (by rw [dot.2]; decide) (hfree _ rfl)

theorem Settled.determined {s : Symbol} {d : Derivation s} (hs : s.first = s) (h : Settled d) :
    Determined d := by
  intro d' rest rest' hfree hfree' htokens
  obtain ⟨rfl, rfl⟩ := h (hs ▸ hfree) hfree' htokens
  exact ⟨[], .refl d, rfl⟩

theorem terminal_ne {kind kind' : TokenKind} (h : kind ≠ kind') (t : Terminal kind)
    (t' : Terminal kind') : t.1 ≠ t'.1 := fun he => h (t.2.symm.trans ((congrArg _ he).trans t'.2))

section

variable {l : Level} {ls : List Level} {rest : List Token}

theorem Extends.free {a d : Derivation (.row (l :: ls))} {more : List Token} (h : Extends a d more)
    (hs : Separate (l :: ls)) (hfree : Free (.row (l :: ls)) rest) :
    Free (.row ls) (more ++ rest) := by
  cases h with
  | refl => exact hfree.tighter
  | @left _ _ _ _ _ op => exact hs.free op

theorem Extends.free_atom {e d : Derivation .suffixed} {more : List Token} (h : Extends e d more)
    (hfree : Free .suffixed rest) : Free .atom (more ++ rest) := by
  cases h with
  | refl => exact hfree.mono (by decide)
  | @percent _ _ mark => exact free_terminal mark (by decide)
  | @field _ _ dot => exact free_terminal dot (by decide)

theorem not_free_terminal {s : Symbol} {kind : TokenKind} (t : Terminal kind)
    (hk : kind ∈ s.continues) (h : Free s (t.1 :: rest)) : False :=
  h _ rfl (t.2.symm ▸ hk)

theorem not_free_operator (op : Operator l) (h : Free (.row (l :: ls)) (op.token :: rest)) :
    False :=
  h.not_mem_kinds _ rfl op.mem

theorem determined_left (hs : Separate (l :: ls)) {hl : l.associativity = .left}
    {a : Derivation (.row (l :: ls))} {op : Operator l} {b : Derivation (.row ls)}
    (ha : Determined a) (hb : Settled b) : Determined (.left hl a op b) := by
  intro d' rest rest' hfree hfree' htokens
  simp only [Symbol.first, hl, if_true] at hfree
  have hop : Free (Symbol.row (l :: ls)).first (op.token :: (b.tokens ++ rest)) := by
    simp only [Symbol.first, hl, if_true]
    exact hs.free op
  rw [Derivation.tokens, List.append_assoc] at htokens
  obtain ⟨more, hmore, hrest⟩ := ha hop hfree' htokens
  cases hmore with
  | refl =>
    subst hrest
    exact (not_free_operator op hfree').elim
  | @left _ _ _ _ _ op' b' more hmore =>
    rw [List.cons_append, List.append_assoc, List.cons.injEq] at hrest
    obtain ⟨htoken, hrest⟩ := hrest
    obtain rfl := Operator.eq_of_token htoken
    obtain ⟨rfl, rfl⟩ := hb hfree (hmore.free hs hfree') hrest
    exact ⟨more, hmore, rfl⟩

theorem determined_tighter (hs : Separate (l :: ls)) {e : Derivation (.row ls)} (he : Settled e) :
    Determined (.tighter e : Derivation (.row (l :: ls))) := by
  by_cases hl : l.associativity = .left
  · intro d' rest rest' hfree hfree' htokens
    simp only [Symbol.first, hl, if_true] at hfree
    obtain ⟨e', more, hmore⟩ := exists_extends_tighter hl d'
    rw [hmore.tokens, List.append_assoc] at htokens
    obtain ⟨rfl, rfl⟩ := he hfree (hmore.free hs hfree') htokens
    exact ⟨more, hmore, rfl⟩
  · refine Settled.determined (by simp [Symbol.first, hl]) ?_
    intro d' rest rest' hfree hfree' htokens
    cases d' with
    | tighter e' =>
      obtain ⟨rfl, rfl⟩ := he hfree.tighter hfree'.tighter htokens
      exact ⟨rfl, rfl⟩
    | left h => exact absurd h hl
    | right _ a' op' | single _ a' op' =>
      rw [Derivation.tokens, Derivation.tokens, List.append_assoc] at htokens
      obtain ⟨-, rfl⟩ := he hfree.tighter (hs.free op') htokens
      exact (not_free_operator op' hfree).elim

theorem determined_right (hs : Separate (l :: ls)) {hl : l.associativity = .right}
    {a : Derivation (.row ls)} {op : Operator l} {b : Derivation (.row (l :: ls))}
    (ha : Settled a) (hb : Settled b) : Determined (.right hl a op b) := by
  refine Settled.determined (by simp [Symbol.first, hl]) ?_
  intro d' rest rest' hfree hfree' htokens
  rw [Derivation.tokens, List.append_assoc] at htokens
  cases d' with
  | tighter e' =>
    obtain ⟨-, rfl⟩ := ha (hs.free op) hfree'.tighter htokens
    exact (not_free_operator op hfree').elim
  | left h | single h => exact absurd (h.symm.trans hl) (by decide)
  | right h a' op' b' =>
    rw [Derivation.tokens, List.append_assoc] at htokens
    obtain ⟨rfl, hafter⟩ := ha (hs.free op) (hs.free op') htokens
    obtain ⟨htoken, hrest⟩ := List.cons.inj hafter
    clear hafter
    obtain rfl := Operator.eq_of_token htoken
    obtain ⟨rfl, rfl⟩ := hb hfree hfree' hrest
    exact ⟨rfl, rfl⟩

theorem determined_single (hs : Separate (l :: ls)) {hl : l.associativity = .none}
    {a : Derivation (.row ls)} {op : Operator l} {b : Derivation (.row ls)}
    (ha : Settled a) (hb : Settled b) : Determined (.single hl a op b) := by
  refine Settled.determined (by simp [Symbol.first, hl]) ?_
  intro d' rest rest' hfree hfree' htokens
  rw [Derivation.tokens, List.append_assoc] at htokens
  cases d' with
  | tighter e' =>
    obtain ⟨-, rfl⟩ := ha (hs.free op) hfree'.tighter htokens
    exact (not_free_operator op hfree').elim
  | left h | right h => exact absurd (h.symm.trans hl) (by decide)
  | single h a' op' b' =>
    rw [Derivation.tokens, List.append_assoc] at htokens
    obtain ⟨rfl, hafter⟩ := ha (hs.free op) (hs.free op') htokens
    obtain ⟨htoken, hrest⟩ := List.cons.inj hafter
    clear hafter
    obtain rfl := Operator.eq_of_token htoken
    obtain ⟨rfl, rfl⟩ := hb hfree.tighter hfree'.tighter hrest
    exact ⟨rfl, rfl⟩

end

def Derivation.lead : Derivation .atom → TokenKind
  | .number .. => .number
  | .text _ => .string
  | .truth _ => .trueWord
  | .falsehood _ => .falseWord
  | .name _ | .call .. => .name
  | .group .. => .leftParen
  | .record .. => .leftBrace
  | .table .. => .leftBracket

theorem Derivation.tokens_atom (d : Derivation .atom) :
    ∃ (t : Terminal d.lead) (more : List Token), d.tokens = t.1 :: more := by
  cases d with
  | number t | text t | truth t | falsehood t | name t | call t | group t | record t | table t =>
    exact ⟨t, _, rfl⟩

theorem lead_eq {d d' : Derivation .atom} {rest rest' : List Token}
    (h : d.tokens ++ rest = d'.tokens ++ rest') : d.lead = d'.lead := by
  obtain ⟨t, more, hd⟩ := d.tokens_atom
  obtain ⟨t', more', hd'⟩ := d'.tokens_atom
  rw [hd, hd'] at h
  have ht : t.1 = t'.1 := (List.cons.inj h).1
  rw [← t.2, ht, t'.2]

theorem determined_bare {e : Derivation .atom} (he : Settled e) : Determined (.bare e) := by
  intro d' rest rest' hfree hfree' htokens
  obtain ⟨e', more, hmore⟩ := exists_extends_bare d'
  rw [hmore.tokens, List.append_assoc] at htokens
  obtain ⟨rfl, rfl⟩ := he hfree (hmore.free_atom hfree') htokens
  exact ⟨more, hmore, rfl⟩

theorem determined_percent {e : Derivation .suffixed} {mark : Terminal .percent}
    (he : Determined e) : Determined (.percent e mark) := by
  intro d' rest rest' hfree hfree' htokens
  rw [Derivation.tokens, List.append_assoc] at htokens
  obtain ⟨more, hmore, hrest⟩ := he (free_terminal mark (by decide)) hfree' htokens
  cases hmore with
  | refl =>
    subst hrest
    exact (not_free_terminal mark (by decide) hfree').elim
  | @percent _ _ mark' more hmore =>
    obtain ⟨hmark, hafter⟩ := List.cons.inj hrest
    obtain rfl := Subtype.ext hmark
    exact ⟨more, hmore, hafter⟩
  | @field _ _ dot => exact absurd (List.cons.inj hrest).1 (terminal_ne (by decide) mark dot)

theorem determined_field {e : Derivation .suffixed} {dot : Terminal .dot} {name : Terminal .name}
    (he : Determined e) : Determined (.field e dot name) := by
  intro d' rest rest' hfree hfree' htokens
  rw [Derivation.tokens, List.append_assoc] at htokens
  obtain ⟨more, hmore, hrest⟩ := he (free_terminal dot (by decide)) hfree' htokens
  cases hmore with
  | refl =>
    subst hrest
    exact (not_free_terminal dot (by decide) hfree').elim
  | @percent _ _ mark => exact absurd (List.cons.inj hrest).1 (terminal_ne (by decide) dot mark)
  | @field _ _ dot' name' more hmore =>
    obtain ⟨hdot, hafter⟩ := List.cons.inj hrest
    obtain ⟨hname, hafter'⟩ := List.cons.inj hafter
    obtain rfl := Subtype.ext hdot
    obtain rfl := Subtype.ext hname
    exact ⟨more, hmore, hafter'⟩

theorem terminal_cons_inj {kind : TokenKind} {t t' : Terminal kind} {ts ts' : List Token}
    (h : t.1 :: ts = t'.1 :: ts') : t = t' ∧ ts = ts' :=
  ⟨Subtype.ext (List.cons.inj h).1, (List.cons.inj h).2⟩

theorem Settled.before {s : Symbol} {kind : TokenKind} {d d' : Derivation s} (hd : Settled d)
    (hk : kind ∉ s.continues) {t t' : Terminal kind} {rest rest' : List Token}
    (h : d.tokens ++ t.1 :: rest = d'.tokens ++ t'.1 :: rest') :
    d = d' ∧ t = t' ∧ rest = rest' := by
  obtain ⟨rfl, hafter⟩ := hd (free_terminal t hk) (free_terminal t' hk) h
  obtain ⟨rfl, hrest⟩ := terminal_cons_inj hafter
  exact ⟨rfl, rfl, hrest⟩

theorem Settled.closed {s : Symbol} {kind : TokenKind} {d d' : Derivation s} (hd : Settled d)
    (hk : kind ∉ s.continues) {t t' : Terminal kind} {rest rest' : List Token}
    (h : d.tokens ++ [t.1] ++ rest = d'.tokens ++ [t'.1] ++ rest') :
    d = d' ∧ t = t' ∧ rest = rest' := by
  rw [List.append_assoc, List.append_assoc] at h
  exact hd.before hk h

theorem not_signed {e : Derivation .suffixed} {sign : Sign} {rest ts : List Token} :
    e.tokens ++ rest ≠ sign.token :: ts := by
  obtain ⟨t, more, ht, hk⟩ := e.starts (List.cons_ne_nil _ _)
  rw [ht]
  intro h
  obtain rfl := (List.cons.inj h).1
  exact Symbol.operandStarts_unsigned _ hk sign.mem

theorem not_free_of_starts {s s' : Symbol} (d : Derivation s) (hs : s.starts ≠ [])
    (hsub : s.starts ⊆ s'.continues) {rest : List Token} : ¬ Free s' (d.tokens ++ rest) := by
  obtain ⟨t, more, ht, hk⟩ := d.starts hs
  rw [ht]
  exact fun hfree => hfree t rfl (hsub hk)

section

variable {e : Derivation .expression} (he : Settled e)

include he

theorem settled_lastItem : Settled (.lastItem e) := by
  intro d' rest rest' hfree hfree' h
  cases d' with
  | lastItem e' =>
    obtain ⟨rfl, rfl⟩ := he hfree.expression hfree'.expression h
    exact ⟨rfl, rfl⟩
  | consItem e' comma more =>
    rw [Derivation.tokens, Derivation.tokens, List.append_assoc] at h
    obtain ⟨-, rfl⟩ := he hfree.expression (free_terminal comma (by decide)) h
    exact (not_free_terminal comma (by decide) hfree).elim

theorem settled_consItem {comma : Terminal .comma} {more : Derivation .list} (hm : Settled more) :
    Settled (.consItem e comma more) := by
  intro d' rest rest' hfree hfree' h
  rw [Derivation.tokens, List.append_assoc] at h
  cases d' with
  | lastItem e' =>
    obtain ⟨-, rfl⟩ := he (free_terminal comma (by decide)) hfree'.expression h
    exact (not_free_terminal comma (by decide) hfree').elim
  | consItem e' comma' more' =>
    rw [Derivation.tokens, List.append_assoc] at h
    obtain ⟨rfl, rfl, hmore⟩ := he.before (by decide) h
    obtain ⟨rfl, rfl⟩ := hm hfree hfree' hmore
    exact ⟨rfl, rfl⟩

variable {taken : List String} {name : Terminal .name} {fresh : name.1.value ∉ taken}
  {colon : Terminal .colon}

theorem settled_lastField : Settled (.lastField name fresh colon e) := by
  intro d' rest rest' hfree hfree' h
  cases d' with
  | lastField name' fresh' colon' e' =>
    obtain ⟨rfl, hcolon⟩ := terminal_cons_inj h
    obtain ⟨rfl, htokens⟩ := terminal_cons_inj hcolon
    obtain ⟨rfl, rfl⟩ := he (Free.expression hfree) (Free.expression hfree') htokens
    exact ⟨rfl, rfl⟩
  | consField name' fresh' colon' e' comma more =>
    simp only [Derivation.tokens, List.cons_append, List.append_assoc] at h
    obtain ⟨rfl, hcolon⟩ := terminal_cons_inj h
    obtain ⟨rfl, htokens⟩ := terminal_cons_inj hcolon
    obtain ⟨-, rfl⟩ := he (Free.expression hfree) (free_terminal comma (by decide)) htokens
    exact (not_free_terminal comma List.mem_cons_self hfree).elim

theorem settled_consField {comma : Terminal .comma}
    {more : Derivation (.fields (name.1.value :: taken))} (hm : Settled more) :
    Settled (.consField name fresh colon e comma more) := by
  intro d' rest rest' hfree hfree' h
  simp only [Derivation.tokens, List.cons_append, List.append_assoc] at h
  cases d' with
  | lastField name' fresh' colon' e' =>
    obtain ⟨rfl, hcolon⟩ := terminal_cons_inj h
    obtain ⟨rfl, htokens⟩ := terminal_cons_inj hcolon
    obtain ⟨-, rfl⟩ := he (free_terminal comma (by decide)) (Free.expression hfree') htokens
    exact (not_free_terminal comma List.mem_cons_self hfree').elim
  | consField name' fresh' colon' e' comma' more' =>
    simp only [Derivation.tokens, List.cons_append, List.append_assoc] at h
    obtain ⟨rfl, hcolon⟩ := terminal_cons_inj h
    obtain ⟨rfl, htokens⟩ := terminal_cons_inj hcolon
    obtain ⟨rfl, rfl, hmore⟩ := he.before (by decide) htokens
    obtain ⟨rfl, rfl⟩ := hm hfree hfree' hmore
    exact ⟨rfl, rfl⟩

theorem settled_lastLink : Settled (.lastLink e) := by
  intro d' rest rest' hfree hfree' h
  have hexpression : Free .expression rest := hfree.mono (by decide)
  cases d' with
  | lastLink e' =>
    obtain ⟨rfl, rfl⟩ := he hexpression (hfree'.mono (by decide)) h
    exact ⟨rfl, rfl⟩
  | endLink e' semicolon | consLink e' semicolon =>
    rw [Derivation.tokens, Derivation.tokens, List.append_assoc] at h
    obtain ⟨-, rfl⟩ := he hexpression (free_terminal semicolon (by decide)) h
    exact (not_free_terminal semicolon (by decide) hfree).elim

theorem settled_endLink {semicolon : Terminal .semicolon} : Settled (.endLink e semicolon) := by
  intro d' rest rest' hfree hfree' h
  rw [Derivation.tokens, List.append_assoc] at h
  cases d' with
  | lastLink e' =>
    obtain ⟨-, rfl⟩ := he (free_terminal semicolon (by decide)) (hfree'.mono (by decide)) h
    exact (not_free_terminal semicolon (by decide) hfree').elim
  | endLink e' semicolon' =>
    rw [Derivation.tokens, List.append_assoc] at h
    obtain ⟨rfl, rfl, rfl⟩ := he.before (by decide) h
    exact ⟨rfl, rfl⟩
  | consLink e' semicolon' more =>
    rw [Derivation.tokens, List.append_assoc] at h
    obtain ⟨rfl, rfl, rfl⟩ := he.before (by decide) h
    exact absurd hfree (not_free_of_starts more (List.cons_ne_nil _ _) (by decide))

theorem settled_consLink {semicolon : Terminal .semicolon} {more : Derivation .chain}
    (hm : Settled more) : Settled (.consLink e semicolon more) := by
  intro d' rest rest' hfree hfree' h
  rw [Derivation.tokens, List.append_assoc] at h
  cases d' with
  | lastLink e' =>
    obtain ⟨-, rfl⟩ := he (free_terminal semicolon (by decide)) (hfree'.mono (by decide)) h
    exact (not_free_terminal semicolon (by decide) hfree').elim
  | endLink e' semicolon' =>
    rw [Derivation.tokens, List.append_assoc] at h
    obtain ⟨rfl, rfl, rfl⟩ := he.before (by decide) h
    exact absurd hfree' (not_free_of_starts more (List.cons_ne_nil _ _) (by decide))
  | consLink e' semicolon' more' =>
    rw [Derivation.tokens, List.append_assoc] at h
    obtain ⟨rfl, rfl, hmore⟩ := he.before (by decide) h
    obtain ⟨rfl, rfl⟩ := hm hfree hfree' hmore
    exact ⟨rfl, rfl⟩

end

theorem settled_call {name : Terminal .name} {open_ : Terminal .leftParen}
    {args : Derivation .items} {close : Terminal .rightParen} (ha : Settled args) :
    Settled (.call name open_ args close) := by
  intro d' rest rest' hfree hfree' h
  have hlead := lead_eq h
  cases d' with
  | name name' =>
    obtain ⟨-, rfl⟩ := terminal_cons_inj h
    exact (not_free_terminal open_ (by decide) hfree').elim
  | call name' open' args' close' =>
    obtain ⟨rfl, hopen⟩ := terminal_cons_inj h
    obtain ⟨rfl, hargs⟩ := terminal_cons_inj hopen
    obtain ⟨rfl, rfl, hrest⟩ := ha.closed (by decide) hargs
    exact ⟨rfl, hrest⟩
  | _ => cases hlead

theorem settled_name (name : Terminal .name) : Settled (.name name) := by
  intro d' rest rest' hfree hfree' h
  have hlead := lead_eq h
  cases d' with
  | name name' =>
    obtain ⟨rfl, hrest⟩ := terminal_cons_inj h
    exact ⟨rfl, hrest⟩
  | call name' open_ =>
    obtain ⟨-, rfl⟩ := terminal_cons_inj h
    exact (not_free_terminal open_ (by decide) hfree).elim
  | _ => cases hlead

theorem determined {s : Symbol} (d : Derivation s) (hs : s.Separate) : Determined d := by
  induction d with
  | tighter e ih => exact determined_tighter hs (ih hs.2).settled
  | left h a op b iha ihb => exact determined_left hs (iha hs) (ihb hs.2).settled
  | right h a op b iha ihb => exact determined_right hs (iha hs.2).settled (ihb hs).settled
  | single h a op b iha ihb => exact determined_single hs (iha hs.2).settled (ihb hs.2).settled
  | bare e ih => exact determined_bare (ih trivial).settled
  | percent e mark ih => exact determined_percent (ih trivial)
  | field e dot name ih => exact determined_field (ih trivial)
  | name name => exact (settled_name name).determined rfl
  | call name open_ args close ih => exact (settled_call (ih trivial).settled).determined rfl
  | lastItem e ih => exact (settled_lastItem (ih separate_levels).settled).determined rfl
  | consItem e comma more ih ih' =>
    exact (settled_consItem (ih separate_levels).settled (ih' trivial).settled).determined rfl
  | lastField name fresh colon e ih =>
    exact (settled_lastField (ih separate_levels).settled).determined rfl
  | consField name fresh colon e comma more ih ih' =>
    exact (settled_consField (ih separate_levels).settled (ih' trivial).settled).determined rfl
  | lastLink e ih => exact (settled_lastLink (ih separate_levels).settled).determined rfl
  | endLink e semicolon ih => exact (settled_endLink (ih separate_levels).settled).determined rfl
  | consLink e semicolon more ih ih' =>
    exact (settled_consLink (ih separate_levels).settled (ih' trivial).settled).determined rfl
  | operand e ih =>
    refine Settled.determined rfl fun d' rest rest' hfree hfree' h => ?_
    obtain ⟨e'⟩ := d'
    obtain ⟨rfl, rfl⟩ := (ih trivial).settled hfree hfree' h
    exact ⟨rfl, rfl⟩
  | unsigned e ih =>
    refine Settled.determined rfl fun d' rest rest' hfree hfree' h => ?_
    cases d' with
    | unsigned e' =>
      obtain ⟨rfl, rfl⟩ := (ih trivial).settled hfree hfree' h
      exact ⟨rfl, rfl⟩
    | signed sign e' => exact absurd h not_signed
  | signed sign e ih =>
    refine Settled.determined rfl fun d' rest rest' hfree hfree' h => ?_
    cases d' with
    | unsigned e' => exact absurd h.symm not_signed
    | signed sign' e' =>
      obtain ⟨hsign, hrest⟩ := List.cons.inj h
      obtain rfl := Sign.eq_of_token hsign
      obtain ⟨rfl, rfl⟩ := (ih trivial).settled hfree hfree' hrest
      exact ⟨rfl, rfl⟩
  | number t x hx =>
    refine Settled.determined rfl fun d' rest rest' hfree hfree' h => ?_
    have hlead := lead_eq h
    cases d' with
    | number t' x' hx' =>
      obtain ⟨rfl, hrest⟩ := terminal_cons_inj h
      obtain rfl := Option.some.inj (hx.symm.trans hx')
      exact ⟨rfl, hrest⟩
    | _ => cases hlead
  | text t | truth t | falsehood t =>
    refine Settled.determined rfl fun d' rest rest' hfree hfree' h => ?_
    -- One form of atom starts as this one does, the form itself.
    have hlead := lead_eq h
    cases d' <;> cases hlead
    obtain ⟨rfl, hrest⟩ := terminal_cons_inj h
    exact ⟨rfl, hrest⟩
  | group open_ inner close ih | record open_ inner close ih | table open_ inner close ih =>
    refine Settled.determined rfl fun d' rest rest' hfree hfree' h => ?_
    have hlead := lead_eq h
    cases d' <;> cases hlead
    obtain ⟨rfl, hinner⟩ := terminal_cons_inj h
    obtain ⟨rfl, rfl, hrest⟩ := (ih trivial).settled.closed (by decide) hinner
    exact ⟨rfl, hrest⟩
  | noItems =>
    refine Settled.determined rfl fun d' rest rest' hfree hfree' h => ?_
    cases d' with
    | noItems => exact ⟨rfl, h⟩
    | someItems inner' =>
      obtain rfl : rest = inner'.tokens ++ rest' := h
      exact absurd hfree (not_free_of_starts inner' (List.cons_ne_nil _ _) (by decide))
  | someItems inner ih =>
    refine Settled.determined rfl fun d' rest rest' hfree hfree' h => ?_
    cases d' with
    | noItems =>
      obtain rfl : inner.tokens ++ rest = rest' := h
      exact absurd hfree' (not_free_of_starts inner (List.cons_ne_nil _ _) (by decide))
    | someItems inner' =>
      obtain ⟨rfl, rfl⟩ := (ih trivial).settled (hfree.mono (by decide)) (hfree'.mono (by decide)) h
      exact ⟨rfl, rfl⟩
  | noEntries =>
    refine Settled.determined rfl fun d' rest rest' hfree hfree' h => ?_
    cases d' with
    | noEntries => exact ⟨rfl, h⟩
    | someEntries inner' =>
      obtain rfl : rest = inner'.tokens ++ rest' := h
      exact absurd hfree (not_free_of_starts inner' (List.cons_ne_nil _ _) (by decide))
  | someEntries inner ih =>
    refine Settled.determined rfl fun d' rest rest' hfree hfree' h => ?_
    cases d' with
    | noEntries =>
      obtain rfl : inner.tokens ++ rest = rest' := h
      exact absurd hfree' (not_free_of_starts inner (List.cons_ne_nil _ _) (by decide))
    | someEntries inner' =>
      obtain ⟨rfl, rfl⟩ := (ih trivial).settled (hfree.mono (by decide)) (hfree'.mono (by decide)) h
      exact ⟨rfl, rfl⟩

end FormulaShell.Formula
