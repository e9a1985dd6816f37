import FormulaShell.Proofs.Formula.Grammar

namespace FormulaShell.Formula

namespace Symbol

def operandStarts : List TokenKind :=
  [.number, .string, .trueWord, .falseWord, .name, .leftParen, .leftBrace, .leftBracket]

/-- The kinds with which what is derived starts; none where it may be nothing. -/
def starts : Symbol → List TokenKind
  | suffixed | atom => operandStarts
  | row _ | operand | list | chain => .minus :: .plus :: .negation :: operandStarts
  | fields _ => [.name]
  | items | entries => []

def joins (ls : List Level) : List TokenKind :=
  ls.foldr (·.kinds ++ ·) [.percent, .dot, .leftParen]

/-- The kinds of tokens that could continue what is derived. -/
def continues : Symbol → List TokenKind
  | row ls => joins ls
  | operand | suffixed => joins []
  | atom => [.leftParen]
  | list | fields _ => .comma :: joins levels
  | items => .comma :: joins levels ++ chain.starts
  | entries => .name :: .comma :: joins levels
  | chain => .semicolon :: joins levels ++ chain.starts

theorem operandStarts_unsigned : ∀ k ∈ operandStarts, k ∉ [TokenKind.minus, .plus, .negation] := by
  decide

end Symbol

def Free (s : Symbol) (rest : List Token) : Prop := ∀ t ∈ rest.head?, t.kind ∉ s.continues

theorem Free.mono {s s' : Symbol} {rest : List Token} (h : Free s rest)
    (hs : s'.continues ⊆ s.continues) : Free s' rest := fun t ht hk => h t ht (hs hk)

theorem free_nil (s : Symbol) : Free s [] := by
  rintro _ ⟨⟩

theorem free_cons {s : Symbol} {t : Token} {rest : List Token} (h : t.kind ∉ s.continues) :
    Free s (t :: rest) := by
  rintro _ ⟨⟩
  exact h

theorem free_terminal {s : Symbol} {kind : TokenKind} (t : Terminal kind) {rest : List Token}
    (h : kind ∉ s.continues) : Free s (t.1 :: rest) := free_cons (by rwa [t.2])

/-- No operator of a level could continue an operand of that level. -/
def Separate : List Level → Prop
  | [] => True
  | l :: ls => (∀ k ∈ l.kinds, k ∉ (Symbol.row ls).continues) ∧ Separate ls

def Symbol.Separate : Symbol → Prop
  | row ls => Formula.Separate ls
  | _ => True

theorem separate_levels : Separate levels := by
  simp only [levels, Separate]
  decide

theorem Separate.free {l : Level} {ls : List Level} (h : Separate (l :: ls)) (op : Operator l)
    {rest : List Token} : Free (.row ls) (op.token :: rest) := free_cons (h.1 _ op.mem)

theorem Free.tighter {l : Level} {ls : List Level} {rest : List Token}
    (h : Free (.row (l :: ls)) rest) : Free (.row ls) rest :=
  h.mono (List.subset_append_right l.kinds _)

theorem Free.expression {rest : List Token} (h : Free .list rest) : Free .expression rest :=
  h.mono (by decide)

theorem Free.not_mem_kinds {l : Level} {ls : List Level} {rest : List Token}
    (h : Free (.row (l :: ls)) rest) : ∀ t ∈ rest.head?, t.kind ∉ l.kinds := fun t ht hk =>
  h t ht (List.mem_append_left _ hk)

def Starts (kinds : List TokenKind) (ts : List Token) : Prop :=
  ∃ t more, ts = t :: more ∧ t.kind ∈ kinds

theorem Starts.append {kinds : List TokenKind} {ts : List Token} (h : Starts kinds ts)
    (rest : List Token) : Starts kinds (ts ++ rest) := by
  obtain ⟨t, more, rfl, ht⟩ := h
  exact ⟨t, more ++ rest, rfl, ht⟩

theorem Starts.mono {kinds kinds' : List TokenKind} {ts : List Token} (h : Starts kinds ts)
    (hs : kinds ⊆ kinds') : Starts kinds' ts := by
  obtain ⟨t, more, rfl, ht⟩ := h
  exact ⟨t, more, rfl, hs ht⟩

theorem Starts.exists_ne {kinds : List TokenKind} {ts : List Token} (h : Starts kinds ts)
    (kind : TokenKind) (hk : kind ∉ kinds) : ∃ t more, ts = t :: more ∧ t.kind ≠ kind := by
  obtain ⟨t, more, rfl, ht⟩ := h
  exact ⟨t, more, rfl, fun he => hk (he ▸ ht)⟩

theorem starts_terminal {kind : TokenKind} {kinds : List TokenKind} (t : Terminal kind)
    (more : List Token) (h : kind ∈ kinds) : Starts kinds (t.1 :: more) :=
  ⟨t.1, more, rfl, by rwa [t.2]⟩

theorem Derivation.starts {s : Symbol} (d : Derivation s) (hs : s.starts ≠ []) :
    Starts s.starts d.tokens := by
  induction d with
  | operand e ih | tighter e ih | lastItem e ih | lastLink e ih | bare e ih =>
    exact ih (List.cons_ne_nil _ _)
  | left h a op b iha ihb | right h a op b iha ihb | single h a op b iha ihb =>
    exact (iha (List.cons_ne_nil _ _)).append _
  | unsigned e ih => exact (ih (List.cons_ne_nil _ _)).mono (by decide)
  | signed sign e ih =>
    have hsub : [TokenKind.minus, .plus, .negation] ⊆ Symbol.operand.starts := by decide
    exact ⟨sign.token, e.tokens, rfl, hsub sign.mem⟩
  | percent e mark ih | field e dot name ih | endLink e semicolon ih =>
    exact (ih (List.cons_ne_nil _ _)).append _
  | consItem e comma more ih ih' | consLink e semicolon more ih ih' =>
    exact (ih (List.cons_ne_nil _ _)).append _
  | number t | text t | truth t | falsehood t | name t | call t | group t | record t | table t =>
    exact starts_terminal t _ (by decide)
  | lastField t | consField t => exact starts_terminal t _ List.mem_cons_self
  | noItems | someItems | noEntries | someEntries => exact absurd rfl hs

end FormulaShell.Formula
