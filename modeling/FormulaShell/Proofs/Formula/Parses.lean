import FormulaShell.Formula.Parser

namespace FormulaShell.Formula

variable {α : Type} {n : Nat}

/-- The result is a value and the tokens that are left after it. -/
def Gives (r : Except ParseError (Parsed Token α n)) (a : α) (rest : List Token) : Prop :=
  ∃ h, r = .ok ⟨a, rest, h⟩

def Ends (rest : List Token) : Prop :=
  ∀ t ∈ rest.head?, t.kind ∈ [TokenKind.comma, .rightBracket, .rightBrace]

theorem ends_nil : Ends [] := by
  intro t ht
  cases ht

theorem ends_cons {t : Token} {rest : List Token}
    (h : t.kind ∈ [TokenKind.comma, .rightBracket, .rightBrace]) : Ends (t :: rest) := by
  rintro _ ⟨⟩
  exact h

section

variable {next : Parser Expr} {ts more : List Token} {e : Expr}

theorem leftRest_of_not_mem {kinds : List TokenKind} (hm : ∀ t ∈ more.head?, t.kind ∉ kinds) :
    leftRest kinds next e more = .ok (.unused e more) := by
  cases more with
  | nil => rw [leftRest]
  | cons t more => rw [leftRest, if_neg (hm t rfl)]

theorem Gives.level {l : Level} (h : Gives (next ts) e more)
    (hm : ∀ t ∈ more.head?, t.kind ∉ l.kinds) : Gives (level l next ts) e more := by
  obtain ⟨hlt, he⟩ := h
  obtain ⟨kinds, associativity⟩ := l
  cases associativity with
  | left =>
    simp only [Formula.level, he, leftRest_of_not_mem hm]
    exact ⟨hlt, rfl⟩
  | right =>
    simp only [Formula.level]
    rw [rightRow, he]
    cases more with
    | nil => exact ⟨hlt, rfl⟩
    | cons t more =>
      simp only [if_neg (hm t rfl)]
      exact ⟨hlt, rfl⟩
  | none =>
    simp only [Formula.level]
    rw [singlePair, he]
    cases more with
    | nil => exact ⟨hlt, rfl⟩
    | cons t more =>
      simp only [if_neg (hm t rfl)]
      exact ⟨hlt, rfl⟩

theorem not_mem_kinds : ∀ l ∈ levels, ∀ k ∈ [TokenKind.comma, .rightBracket, .rightBrace],
    k ∉ l.kinds := by decide

theorem Gives.expression (h : Gives (next ts) e more) (hm : Ends more) :
    Gives (expression next ts) e more := by
  have hlevels : ∀ ls : List Level, (∀ l ∈ ls, ∀ t ∈ more.head?, t.kind ∉ l.kinds) →
      Gives (ls.foldr Formula.level next ts) e more := by
    intro ls hls
    induction ls with
    | nil => exact h
    | cons l ls ih =>
      exact (ih fun l' hl' => hls l' (List.mem_cons_of_mem l hl')).level
        (hls l List.mem_cons_self)
  exact hlevels levels fun l hl t ht => not_mem_kinds l hl t.kind (hm t ht)

end

section

variable {eof t : Token} {expr : Parser Expr} {ts rest more : List Token} {e : Expr}

theorem Gives.suffixed (h : Gives (atom eof expr ts) e more) (hm : Ends more) :
    Gives (suffixed eof expr ts) e more := by
  obtain ⟨hlt, he⟩ := h
  rw [Formula.suffixed, he]
  cases more with
  | nil =>
    simp only [suffixes]
    exact ⟨hlt, rfl⟩
  | cons t more =>
    have ht := hm t rfl
    have h1 : t.kind ≠ .percent := fun hk => by
      rw [hk] at ht
      exact absurd ht (by decide)
    have h2 : t.kind ≠ .dot := fun hk => by
      rw [hk] at ht
      exact absurd ht (by decide)
    simp only
    rw [suffixes, if_neg h1, if_neg h2]
    exact ⟨hlt, rfl⟩

theorem Gives.operand
    (h : Gives (Formula.suffixed eof (Formula.expression (operand eof n)) (t :: rest)) e more)
    (ht : t.kind ∉ [TokenKind.minus, .plus, .negation]) :
    Gives (Formula.operand eof (n + 1) (t :: rest)) e more := by
  rw [Formula.operand]
  simp only
  split
  · next hk => simp [hk] at ht
  · next hk => simp [hk] at ht
  · next hk => simp [hk] at ht
  · exact h

theorem Gives.minus (h : Gives (Formula.operand eof n rest) e more) (ht : t.kind = .minus) :
    Gives (Formula.operand eof (n + 1) (t :: rest)) (.unary .neg e) more := by
  obtain ⟨hlt, he⟩ := h
  rw [Formula.operand]
  simp only [ht, he]
  exact ⟨_, rfl⟩

theorem gives_number {x : Float} (ht : t.kind = .number) (hx : Number.read? t.value = some x) :
    Gives (atom eof expr (t :: rest)) (.number x) rest := by
  rw [atom]
  simp only [ht, hx]
  exact ⟨_, rfl⟩

theorem gives_text (ht : t.kind = .string) :
    Gives (atom eof expr (t :: rest)) (.text t.value) rest := by
  rw [atom]
  simp only [ht]
  exact ⟨_, rfl⟩

theorem gives_true (ht : t.kind = .trueWord) :
    Gives (atom eof expr (t :: rest)) (.boolean true) rest := by
  rw [atom]
  simp only [ht]
  exact ⟨_, rfl⟩

theorem gives_false (ht : t.kind = .falseWord) :
    Gives (atom eof expr (t :: rest)) (.boolean false) rest := by
  rw [atom]
  simp only [ht]
  exact ⟨_, rfl⟩

theorem Gives.call {es : List Expr} {p : Token}
    (h : Gives (Formula.items eof expr .rightParen rest) es more) (ht : t.kind = .name)
    (hp : p.kind = .leftParen) :
    Gives (atom eof expr (t :: p :: rest)) (.call t.value es t.start.offset) more := by
  obtain ⟨hlt, he⟩ := h
  rw [atom]
  simp only [ht, nameOrCall, hp, if_true, he]
  exact ⟨_, rfl⟩

theorem Gives.record {fs : List (String × Expr)} (h : Gives (Formula.fields eof expr rest) fs more)
    (ht : t.kind = .leftBrace) : Gives (atom eof expr (t :: rest)) (.record fs) more := by
  obtain ⟨hlt, he⟩ := h
  rw [atom]
  simp only [ht, he]
  exact ⟨_, rfl⟩

theorem Gives.table {es : List Expr} (h : Gives (Formula.items eof expr .rightBracket rest) es more)
    (ht : t.kind = .leftBracket) : Gives (atom eof expr (t :: rest)) (.table es) more := by
  obtain ⟨hlt, he⟩ := h
  rw [atom]
  simp only [ht, he]
  exact ⟨_, rfl⟩

variable {stop : TokenKind}

theorem Gives.lastItem (h : Gives (expr ts) e (t :: rest)) (ht : t.kind = stop)
    (hs : stop ≠ .comma) : Gives (itemList eof expr stop ts) [e] rest := by
  obtain ⟨hlt, he⟩ := h
  rw [itemList, he]
  simp only [ht, if_neg hs, expect, if_true]
  exact ⟨_, rfl⟩

theorem Gives.consItem {es : List Expr} (h : Gives (expr ts) e (t :: rest)) (ht : t.kind = .comma)
    (hr : Gives (itemList eof expr stop rest) es more) :
    Gives (itemList eof expr stop ts) (e :: es) more := by
  obtain ⟨hlt, he⟩ := h
  obtain ⟨hlt', he'⟩ := hr
  rw [itemList, he]
  simp only [ht, if_true, he']
  exact ⟨_, rfl⟩

theorem gives_noItems (ht : t.kind = stop) : Gives (items eof expr stop (t :: rest)) [] rest := by
  rw [items, if_pos ht]
  exact ⟨_, rfl⟩

theorem Gives.items {es : List Expr} (h : Gives (itemList eof expr stop (t :: rest)) es more)
    (ht : t.kind ≠ stop) : Gives (Formula.items eof expr stop (t :: rest)) es more := by
  rw [Formula.items, if_neg ht]
  exact h

variable {name colon : Token} {seen : List String}

theorem Gives.field (h : Gives (expr rest) e more) (hn : name.kind = .name)
    (hs : name.value ∉ seen) (hc : colon.kind = .colon) :
    Gives (field eof expr seen (name :: colon :: rest)) (name.value, e) more := by
  obtain ⟨hlt, he⟩ := h
  rw [Formula.field]
  simp only [expect, hn, if_true, Parsed.used, if_neg hs, hc, he]
  exact ⟨_, rfl⟩

theorem Gives.lastField {f : String × Expr} (h : Gives (Formula.field eof expr seen ts) f (t :: rest))
    (ht : t.kind = .rightBrace) : Gives (fieldList eof expr seen ts) [f] rest := by
  obtain ⟨hlt, he⟩ := h
  rw [fieldList, he]
  simp only [ht, expect, if_true]
  exact ⟨_, rfl⟩

theorem Gives.consField {f : String × Expr} {fs : List (String × Expr)}
    (h : Gives (Formula.field eof expr seen ts) f (t :: rest)) (ht : t.kind = .comma)
    (hr : Gives (fieldList eof expr (f.1 :: seen) rest) fs more) :
    Gives (fieldList eof expr seen ts) (f :: fs) more := by
  obtain ⟨hlt, he⟩ := h
  obtain ⟨hlt', he'⟩ := hr
  rw [fieldList, he]
  simp only [ht, if_true, he']
  exact ⟨_, rfl⟩

theorem gives_noFields (ht : t.kind = .rightBrace) :
    Gives (fields eof expr (t :: rest)) [] rest := by
  rw [fields, if_pos ht]
  exact ⟨_, rfl⟩

theorem Gives.fields {fs : List (String × Expr)}
    (h : Gives (fieldList eof expr [] (t :: rest)) fs more) (ht : t.kind ≠ .rightBrace) :
    Gives (Formula.fields eof expr (t :: rest)) fs more := by
  rw [Formula.fields, if_neg ht]
  exact h

theorem formula_of_gives (h : Gives (wholeExpression eof ts) e []) : formula eof ts = .ok e := by
  obtain ⟨hlt, he⟩ := h
  rw [formula, chain, he]
  simp only [chainRest]
  rfl

end

end FormulaShell.Formula
