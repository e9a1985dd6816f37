import FormulaShell.Proofs.Formula.Lookahead
import FormulaShell.Proofs.Formula.Parses

namespace FormulaShell.Formula

section

variable {l : Level} {ls : List Level} {next : Parser Expr} {ts rest more : List Token}
  {x y e : Expr}

theorem joinOperands_of_operator (op : Operator l) :
    joinOperands op.token x y = .ok (.binary op.op x y) := by
  rw [joinOperands, op.means]

theorem Gives.leftRest (op : Operator l) (hy : Gives (next rest) y ts)
    (h : Gives (leftRest l.kinds next (.binary op.op x y) ts) e more) :
    Gives (leftRest l.kinds next x (op.token :: rest)) e more := by
  obtain ⟨hlt, hy⟩ := hy
  obtain ⟨hlt', h⟩ := h
  rw [Formula.leftRest, if_pos op.mem]
  simp only [hy, joinOperands_of_operator, h]
  exact ⟨_, rfl⟩

theorem Gives.leftLevel (hl : l.associativity = .left) (hx : Gives (next rest) x ts)
    (h : Gives (Formula.leftRest l.kinds next x ts) e more) :
    Gives (Formula.level l next rest) e more := by
  obtain ⟨hlt, hx⟩ := hx
  obtain ⟨hlt', h⟩ := h
  simp only [Formula.level, hl, hx, h]
  exact ⟨_, rfl⟩

theorem Gives.rightLevel (hl : l.associativity = .right) (op : Operator l)
    (hx : Gives (next ts) x (op.token :: rest)) (hy : Gives (Formula.level l next rest) y more) :
    Gives (Formula.level l next ts) (.binary op.op x y) more := by
  simp only [Formula.level, hl] at hy ⊢
  obtain ⟨hlt, hx⟩ := hx
  obtain ⟨hlt', hy⟩ := hy
  rw [rightRow, hx]
  simp only [if_pos op.mem, hy, joinOperands_of_operator]
  exact ⟨_, rfl⟩

theorem Gives.singleLevel (hl : l.associativity = .none) (op : Operator l)
    (hx : Gives (next ts) x (op.token :: rest)) (hy : Gives (next rest) y more) :
    Gives (Formula.level l next ts) (.binary op.op x y) more := by
  simp only [Formula.level, hl]
  obtain ⟨hlt, hx⟩ := hx
  obtain ⟨hlt', hy⟩ := hy
  rw [singlePair, hx]
  simp only [if_pos op.mem, hy, joinOperands_of_operator]
  exact ⟨_, rfl⟩

end

section

variable {eof : Token} {expr : Parser Expr} {ts rest more : List Token} {e v : Expr} {n : Nat}

theorem gives_suffixes_of_free (h : Free .suffixed rest) : Gives (suffixes eof e rest) e rest := by
  cases rest with
  | nil =>
    rw [suffixes]
    exact ⟨_, rfl⟩
  | cons t rest =>
    have hp : t.kind ≠ .percent := fun hk => h t rfl (by rw [hk]; decide)
    have hd : t.kind ≠ .dot := fun hk => h t rfl (by rw [hk]; decide)
    rw [suffixes, if_neg hp, if_neg hd]
    exact ⟨_, rfl⟩

theorem Gives.percent (mark : Terminal .percent) (h : Gives (suffixes eof (.percent e) ts) v more) :
    Gives (suffixes eof e (mark.1 :: ts)) v more := by
  obtain ⟨hlt, h⟩ := h
  rw [suffixes, if_pos mark.2, h]
  exact ⟨_, rfl⟩

theorem expect_terminal {kind : TokenKind} (t : Terminal kind) :
    expect eof kind (t.1 :: rest) = .ok (.used t.1 t.1 rest) := by
  rw [expect, if_pos t.2]

theorem Gives.member (dot : Terminal .dot) (name : Terminal .name)
    (h : Gives (suffixes eof (.field e name.1.value) ts) v more) :
    Gives (suffixes eof e (dot.1 :: name.1 :: ts)) v more := by
  obtain ⟨hlt, h⟩ := h
  have hp : dot.1.kind ≠ .percent := by simp [dot.2]
  rw [suffixes, if_neg hp, if_pos dot.2, expect_terminal]
  simp only [Parsed.used, h]
  exact ⟨_, rfl⟩

theorem Gives.suffixedBy (ha : Gives (atom eof expr ts) e rest)
    (h : Gives (suffixes eof e rest) v more) : Gives (Formula.suffixed eof expr ts) v more := by
  obtain ⟨hlt, ha⟩ := ha
  obtain ⟨hlt', h⟩ := h
  simp only [Formula.suffixed, ha, h]
  exact ⟨_, rfl⟩

theorem Gives.signed (sign : Sign) (h : Gives (Formula.operand eof n ts) e more) :
    Gives (Formula.operand eof (n + 1) (sign.token :: ts)) (sign.apply e) more := by
  obtain ⟨hlt, h⟩ := h
  obtain ⟨t, ht⟩ := sign
  simp only [List.mem_cons, List.not_mem_nil, or_false] at ht
  rcases ht with ht | ht | ht
  all_goals
    simp only [Formula.operand, ht, h, Sign.apply]
    exact ⟨_, rfl⟩

theorem gives_name {t : Token} (ht : t.kind = .name) (h : Free .atom rest) :
    Gives (atom eof expr (t :: rest)) (.name t.value t.start.offset) rest := by
  rw [atom]
  simp only [ht]
  cases rest with
  | nil =>
    rw [nameOrCall]
    exact ⟨_, rfl⟩
  | cons p rest =>
    have hp : p.kind ≠ .leftParen := fun hk => h p rfl (by rw [hk]; decide)
    rw [nameOrCall, if_neg hp]
    exact ⟨_, rfl⟩

theorem Gives.group {t : Token} (ht : t.kind = .leftParen)
    (h : Gives (closedChain eof expr .rightParen rest) e more) :
    Gives (atom eof expr (t :: rest)) e more := by
  obtain ⟨hlt, h⟩ := h
  rw [atom]
  simp only [ht, h]
  exact ⟨_, rfl⟩

def GivesChain (eof : Token) (expr : Parser Expr) (stop : TokenKind) (ts : List Token)
    (es : List Expr) (rest : List Token) : Prop :=
  ∃ e more left, es = e :: more ∧ Gives (expr ts) e left ∧
    Gives (chainRest eof expr stop left) more rest

variable {stop : TokenKind} {es : List Expr}

theorem GivesChain.chain (h : GivesChain eof expr stop ts es rest) :
    Gives (chain eof expr stop ts) (inSequence es) rest := by
  obtain ⟨e, more, left, rfl, ⟨hlt, he⟩, ⟨hlt', hmore⟩⟩ := h
  simp only [Formula.chain, he, hmore]
  exact ⟨_, by cases more <;> rfl⟩

theorem GivesChain.closed (close : Terminal stop)
    (h : GivesChain eof expr stop ts es (close.1 :: rest)) :
    Gives (closedChain eof expr stop ts) (inSequence es) rest := by
  obtain ⟨hlt, h⟩ := h.chain
  simp only [closedChain, h, expect_terminal]
  exact ⟨_, rfl⟩

theorem chainRest_nil_of_stop (h : (current eof rest).kind = stop) (hs : stop ≠ .semicolon) :
    Gives (chainRest eof expr stop rest) [] rest := by
  cases rest with
  | nil =>
    rw [chainRest]
    exact ⟨_, rfl⟩
  | cons t rest =>
    have ht : t.kind ≠ .semicolon := by rwa [show t.kind = stop from h]
    rw [chainRest, if_neg ht]
    exact ⟨_, rfl⟩

theorem chainRest_end (semicolon : Terminal .semicolon) (h : (current eof rest).kind = stop) :
    Gives (chainRest eof expr stop (semicolon.1 :: rest)) [] rest := by
  rw [chainRest, if_pos semicolon.2, if_pos h]
  exact ⟨_, rfl⟩

theorem GivesChain.chainRest (semicolon : Terminal .semicolon) (hn : (current eof ts).kind ≠ stop)
    (h : GivesChain eof expr stop ts es rest) :
    Gives (chainRest eof expr stop (semicolon.1 :: ts)) es rest := by
  obtain ⟨e, more, left, rfl, ⟨hlt, he⟩, ⟨hlt', hmore⟩⟩ := h
  rw [Formula.chainRest, if_pos semicolon.2, if_neg hn]
  simp only [he, hmore]
  exact ⟨_, rfl⟩

end

variable {s : Symbol} {ls : List Level} (eof : Token)

def AcceptedRow (d : Derivation (.row ls)) : Prop :=
  ∀ ⦃n rest⦄, d.nesting < n → Free (.row ls) rest →
    Gives (ls.foldr level (operand eof n) (d.tokens ++ rest)) d.value rest

/-- After a derivation the loop of a left level can go on. -/
def LoopsOn (d : Derivation (.row ls)) : Prop :=
  ∀ ⦃l ls'⦄, ls = l :: ls' → l.associativity = .left → ∀ ⦃n ts e more⦄, d.nesting < n →
    Free (.row ls') ts →
    Gives (leftRest l.kinds (ls'.foldr level (operand eof n)) d.value ts) e more →
    Gives (ls.foldr level (operand eof n) (d.tokens ++ ts)) e more

/-- The parser of the symbol gives what the derivation stands for. The brackets around a list and
the end of a chain belong to what is read. -/
def Accepted : {s : Symbol} → Derivation s → Prop
  | .row ls, d => Separate ls → AcceptedRow eof d ∧ LoopsOn eof d
  | .operand, d => ∀ ⦃n rest⦄, d.nesting < n → Free .operand rest →
    Gives (operand eof n (d.tokens ++ rest)) d.value rest
  | .suffixed, d => ∀ ⦃n ts e more⦄, d.nesting ≤ n → Free .atom ts →
    Gives (suffixes eof d.value ts) e more →
    Gives (suffixed eof (expression (operand eof n)) (d.tokens ++ ts)) e more
  | .atom, d => ∀ ⦃n rest⦄, d.nesting ≤ n → Free .atom rest →
    Gives (atom eof (expression (operand eof n)) (d.tokens ++ rest)) d.value rest
  | .list, d => ∀ ⦃n stop⦄ (close : Terminal stop) (rest), d.nesting < n →
    stop ∉ Symbol.list.continues →
    Gives (itemList eof (expression (operand eof n)) stop (d.tokens ++ close.1 :: rest)) d.value
      rest
  | .items, d => ∀ ⦃n stop⦄ (close : Terminal stop) (rest), d.nesting ≤ n →
    stop ∉ Symbol.items.continues →
    Gives (items eof (expression (operand eof n)) stop (d.tokens ++ close.1 :: rest)) d.value rest
  | .fields taken, d => ∀ ⦃n⦄ (close : Terminal .rightBrace) (rest), d.nesting < n →
    Gives (fieldList eof (expression (operand eof n)) taken (d.tokens ++ close.1 :: rest)) d.value
      rest
  | .entries, d => ∀ ⦃n⦄ (close : Terminal .rightBrace) (rest), d.nesting ≤ n →
    Gives (fields eof (expression (operand eof n)) (d.tokens ++ close.1 :: rest)) d.value rest
  | .chain, d => ∀ ⦃n stop rest⦄, d.nesting < n → (current eof rest).kind = stop →
    stop ∉ Symbol.chain.continues →
    GivesChain eof (expression (operand eof n)) stop (d.tokens ++ rest) d.value rest

variable {eof}

theorem LoopsOn.acceptedRow {l : Level} {d : Derivation (.row (l :: ls))} (h : LoopsOn eof d)
    (hl : l.associativity = .left) : AcceptedRow eof d := by
  intro n rest hn hfree
  exact h rfl hl hn hfree.tighter ⟨_, leftRest_of_not_mem hfree.not_mem_kinds⟩

theorem loopsOn_of_ne_left {l : Level} {d : Derivation (.row (l :: ls))}
    (hl : l.associativity ≠ .left) : LoopsOn eof d := by
  rintro _ _ ⟨⟩ hl'
  exact absurd hl' hl

theorem acceptedRow_tighter {l : Level} {e : Derivation (.row ls)} (h : AcceptedRow eof e) :
    AcceptedRow eof (.tighter e : Derivation (.row (l :: ls))) := by
  intro n rest hn hfree
  exact (h hn hfree.tighter).level hfree.not_mem_kinds

theorem loopsOn_tighter {l : Level} {e : Derivation (.row ls)} (h : AcceptedRow eof e) :
    LoopsOn eof (.tighter e : Derivation (.row (l :: ls))) := by
  rintro _ _ ⟨⟩ hl n ts v more hn hfree hmore
  exact (h hn hfree).leftLevel hl hmore

theorem loopsOn_left {l : Level} (hs : Separate (l :: ls)) (hl : l.associativity = .left)
    {a : Derivation (.row (l :: ls))} (op : Operator l) {b : Derivation (.row ls)}
    (ha : LoopsOn eof a) (hb : AcceptedRow eof b) : LoopsOn eof (.left hl a op b) := by
  rintro _ _ ⟨⟩ _ n ts v more hn hfree hmore
  obtain ⟨han, hbn⟩ := Nat.max_lt.mp hn
  rw [Derivation.tokens, List.append_assoc]
  exact ha rfl hl han (hs.free op) (Gives.leftRest op (hb hbn hfree) hmore)

theorem acceptedRow_right {l : Level} (hs : Separate (l :: ls)) (hl : l.associativity = .right)
    {a : Derivation (.row ls)} (op : Operator l) {b : Derivation (.row (l :: ls))}
    (ha : AcceptedRow eof a) (hb : AcceptedRow eof b) : AcceptedRow eof (.right hl a op b) := by
  intro n rest hn hfree
  obtain ⟨han, hbn⟩ := Nat.max_lt.mp hn
  rw [Derivation.tokens, List.append_assoc]
  exact (ha han (hs.free op)).rightLevel hl op (hb hbn hfree)

theorem acceptedRow_single {l : Level} (hs : Separate (l :: ls)) (hl : l.associativity = .none)
    {a : Derivation (.row ls)} (op : Operator l) {b : Derivation (.row ls)}
    (ha : AcceptedRow eof a) (hb : AcceptedRow eof b) : AcceptedRow eof (.single hl a op b) := by
  intro n rest hn hfree
  obtain ⟨han, hbn⟩ := Nat.max_lt.mp hn
  rw [Derivation.tokens, List.append_assoc]
  exact (ha han (hs.free op)).singleLevel hl op (hb hbn hfree.tighter)

theorem free_of_current {stop : TokenKind} {rest : List Token} (h : (current eof rest).kind = stop)
    (hs : stop ∉ s.continues) : Free s rest := by
  intro t ht
  cases rest with
  | nil => cases ht
  | cons _ rest =>
    cases ht
    rwa [← show _ = stop from h] at hs

theorem accepted (d : Derivation s) : Accepted eof d := by
  induction d with
  | operand e ih =>
    intro _
    exact ⟨fun _ _ hn hfree => ih hn hfree, by rintro _ _ ⟨⟩⟩
  | tighter e ih =>
    intro hs
    have he := (ih hs.2).1
    exact ⟨acceptedRow_tighter he, loopsOn_tighter he⟩
  | left hl a op b iha ihb =>
    intro hs
    have h := loopsOn_left hs hl op (iha hs).2 (ihb hs.2).1
    exact ⟨h.acceptedRow hl, h⟩
  | right hl a op b iha ihb =>
    intro hs
    exact ⟨acceptedRow_right hs hl op (iha hs.2).1 (ihb hs).1, loopsOn_of_ne_left (by simp [hl])⟩
  | single hl a op b iha ihb =>
    intro hs
    exact ⟨acceptedRow_single hs hl op (iha hs.2).1 (ihb hs.2).1, loopsOn_of_ne_left (by simp [hl])⟩
  | unsigned e ih =>
    intro n rest hn hfree
    cases n with
    | zero => exact absurd hn (Nat.not_lt_zero _)
    | succ n =>
      have h := ih (Nat.le_of_lt_succ hn) (hfree.mono (by decide)) (gives_suffixes_of_free hfree)
      obtain ⟨t, more, ht, hk⟩ := (e.starts (List.cons_ne_nil _ _)).append rest
      rw [Derivation.tokens, ht]
      rw [ht] at h
      exact h.operand (Symbol.operandStarts_unsigned t.kind hk)
  | signed sign e ih =>
    intro n rest hn hfree
    cases n with
    | zero => exact absurd hn (Nat.not_lt_zero _)
    | succ n => exact (ih (Nat.lt_of_succ_lt_succ hn) hfree).signed sign
  | bare e ih =>
    intro n ts v more hn hfree hmore
    exact (ih hn hfree).suffixedBy hmore
  | percent e mark ih =>
    intro n ts v more hn hfree hmore
    rw [Derivation.tokens, List.append_assoc]
    exact ih hn (free_terminal mark (by decide)) (hmore.percent mark)
  | field e dot name ih =>
    intro n ts v more hn hfree hmore
    rw [Derivation.tokens, List.append_assoc]
    exact ih hn (free_terminal dot (by decide)) (hmore.member dot name)
  | number t x h => exact fun _ _ _ _ => gives_number t.2 h
  | text t => exact fun _ _ _ _ => gives_text t.2
  | truth t => exact fun _ _ _ _ => gives_true t.2
  | falsehood t => exact fun _ _ _ _ => gives_false t.2
  | name t => exact fun _ _ _ hfree => gives_name t.2 hfree
  | call f open_ args close ih =>
    intro n rest hn hfree
    rw [Derivation.tokens, List.cons_append, List.cons_append, List.append_assoc]
    exact (ih close rest hn (by decide)).call f.2 open_.2
  | group open_ inner close ih =>
    intro n rest hn hfree
    rw [Derivation.tokens, List.cons_append, List.append_assoc]
    have hcurrent : (current eof (close.1 :: rest)).kind = .rightParen := close.2
    exact Gives.group open_.2 ((ih hn hcurrent (by decide)).closed close)
  | record open_ entries close ih =>
    intro n rest hn hfree
    rw [Derivation.tokens, List.cons_append, List.append_assoc]
    exact (ih close rest hn).record open_.2
  | table open_ items close ih =>
    intro n rest hn hfree
    rw [Derivation.tokens, List.cons_append, List.append_assoc]
    exact (ih close rest hn (by decide)).table open_.2
  | lastItem e ih =>
    intro n stop close rest hn hs
    have hfree : Free .expression (close.1 :: rest) :=
      free_terminal close fun hk => hs (List.mem_cons_of_mem _ hk)
    exact ((ih separate_levels).1 hn hfree).lastItem close.2 fun hk => hs (hk ▸ List.mem_cons_self)
  | consItem e comma more ih ih' =>
    intro n stop close rest hn hs
    obtain ⟨hen, hmn⟩ := Nat.max_lt.mp hn
    rw [Derivation.tokens, List.append_assoc]
    have hfree {rest} : Free .expression (comma.1 :: rest) := free_terminal comma (by decide)
    exact ((ih separate_levels).1 hen hfree).consItem comma.2 (ih' close rest hmn hs)
  | noItems => exact fun _ _ close _ _ _ => gives_noItems close.2
  | someItems list ih =>
    intro n stop close rest hn hs
    have h := ih close rest hn fun hk => hs (List.mem_append_left _ hk)
    obtain ⟨t, more, ht, hne⟩ := ((list.starts (List.cons_ne_nil _ _)).append
      (close.1 :: rest)).exists_ne stop fun hk => hs (List.mem_append_right _ hk)
    rw [Derivation.tokens, ht]
    rw [ht] at h
    exact h.items hne
  | lastField name fresh colon e ih =>
    intro n close rest hn
    have hfree : Free .expression (close.1 :: rest) := free_terminal close (by decide)
    exact (((ih separate_levels).1 hn hfree).field name.2 fresh colon.2).lastField close.2
  | consField name fresh colon e comma more ih ih' =>
    intro n close rest hn
    obtain ⟨hen, hmn⟩ := Nat.max_lt.mp hn
    rw [Derivation.tokens, List.cons_append, List.cons_append, List.append_assoc]
    have hfree {rest} : Free .expression (comma.1 :: rest) := free_terminal comma (by decide)
    exact (((ih separate_levels).1 hen hfree).field name.2 fresh colon.2).consField comma.2
      (ih' close rest hmn)
  | noEntries => exact fun _ close _ _ => gives_noFields close.2
  | someEntries fields ih =>
    intro n close rest hn
    have h := ih close rest hn
    obtain ⟨t, more, ht, hne⟩ := ((fields.starts (List.cons_ne_nil _ _)).append
      (close.1 :: rest)).exists_ne .rightBrace (by decide)
    rw [Derivation.tokens, ht]
    rw [ht] at h
    exact h.fields hne
  | lastLink e ih =>
    intro n stop rest hn hstop hs
    have hfree : Free .expression rest := (free_of_current hstop hs).mono (by decide)
    exact ⟨e.value, [], rest, rfl, (ih separate_levels).1 hn hfree,
      chainRest_nil_of_stop hstop fun hk => hs (hk ▸ List.mem_cons_self)⟩
  | endLink e semicolon ih =>
    intro n stop rest hn hstop hs
    rw [Derivation.tokens, List.append_assoc]
    exact ⟨e.value, [], _, rfl, (ih separate_levels).1 hn (free_terminal semicolon (by decide)),
      chainRest_end semicolon hstop⟩
  | consLink e semicolon more ih ih' =>
    intro n stop rest hn hstop hs
    obtain ⟨hen, hmn⟩ := Nat.max_lt.mp hn
    rw [Derivation.tokens, List.append_assoc]
    have hfree {rest} : Free .expression (semicolon.1 :: rest) :=
      free_terminal semicolon (by decide)
    obtain ⟨t, ts, ht, hne⟩ := ((more.starts (List.cons_ne_nil _ _)).append rest).exists_ne stop
      fun hk => hs (List.mem_append_right _ hk)
    have hcurrent : (current eof (more.tokens ++ rest)).kind ≠ stop := by rwa [ht]
    exact ⟨e.value, more.value, _, rfl, (ih separate_levels).1 hen hfree,
      (ih' hmn hstop hs).chainRest semicolon hcurrent⟩

theorem formula_of_derivation (heof : eof.kind = .eof) (d : Derivation .chain)
    (hn : d.nesting < maxNesting) : formula eof d.tokens = .ok (inSequence d.value) := by
  have h : GivesChain eof (wholeExpression eof) .eof (d.tokens ++ []) d.value [] :=
    accepted d hn heof (by decide)
  rw [List.append_nil] at h
  obtain ⟨hlt, h⟩ := h.chain
  rw [formula, h]
  rfl

end FormulaShell.Formula
