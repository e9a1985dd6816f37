import FormulaShell.Proofs.Formula.Spelling

namespace FormulaShell.Text

def byteLength : List Char → Nat
  | [] => 0
  | c :: cs => c.utf8Size + byteLength cs

def dropBytes : Nat → List Char → List Char
  | 0, cs => cs
  | _ + 1, [] => []
  | n + 1, c :: cs => dropBytes (n + 1 - c.utf8Size) cs

theorem byteLength_append (xs ys : List Char) :
    byteLength (xs ++ ys) = byteLength xs + byteLength ys := by
  induction xs with
  | nil => rw [List.nil_append, byteLength, Nat.zero_add]
  | cons c xs ih => rw [List.cons_append, byteLength, ih, byteLength, Nat.add_assoc]

theorem dropBytes_append (xs ys : List Char) : dropBytes (byteLength xs) (xs ++ ys) = ys := by
  induction xs with
  | nil => cases ys <;> rfl
  | cons c xs ih =>
    obtain ⟨k, hk⟩ : ∃ k, byteLength (c :: xs) = k + 1 := by
      have := c.utf8Size_pos
      exact ⟨byteLength (c :: xs) - 1, by simp only [byteLength]; omega⟩
    have hs : k + 1 - c.utf8Size = byteLength xs := by
      rw [← hk]
      simp [byteLength]
    rw [hk, List.cons_append, dropBytes, hs, ih]

theorem Position.offset_advanceAll (p : Position) (cs : List Char) :
    (p.advanceAll cs).offset = p.offset + byteLength cs := by
  induction cs generalizing p with
  | nil => rfl
  | cons c cs ih =>
    have hc : (p.advance c).offset = p.offset + c.utf8Size := by
      unfold advance
      split <;> rfl
    have ht := ih (p.advance c)
    rw [hc, Nat.add_assoc] at ht
    exact ht

end FormulaShell.Text

namespace FormulaShell.Formula

open FormulaShell.Text

/-- The part of the source that a token covers. Only a name has two forms, of which the source
shows one. -/
def Token.spelling (source : List Char) (t : Token) : List Char :=
  if t.kind = .string then enclosed '"' t.value.toList
  else if t.kind = .name ∧ (dropBytes t.start.offset source).head? = some '\'' then
    enclosed '\'' t.value.toList
  else t.value.toList

theorem pairSymbol?_ne {c d : Char} {kind : TokenKind} (h : pairSymbol? c d = some kind) :
    kind ≠ .string ∧ kind ≠ .name := by
  unfold pairSymbol? at h
  constructor <;> rintro rfl <;> split_ifs at h <;> cases h

theorem symbol?_ne {c : Char} {kind : TokenKind} (h : symbol? c = some kind) :
    kind ≠ .string ∧ kind ≠ .name := by
  unfold symbol? at h
  constructor <;> rintro rfl <;> split at h <;> cases h

theorem reads_symbol {c : Char} {kind : TokenKind} (hk : symbol? c = some kind)
    (hc : c ∉ ['/', '<', '>', '&', '|']) (rest : List Char) :
    Reads [c] rest (some (kind, String.singleton c)) := by
  simp only [List.mem_cons, List.not_mem_nil, or_false, not_or] at hc
  refine .symbol hk (fun d _ he => absurd he hc.1) fun d _ => ?_
  simp [pairSymbol?, hc]

theorem wordKind_ne_string (s : String) : wordKind s ≠ .string := by
  unfold wordKind
  split_ifs <;> decide

theorem spelling_of_reads {text before rest : List Char} {kind : TokenKind} {value : String}
    {p : Position} (h : Reads text rest (some (kind, value))) (hp : p.offset = byteLength before) :
    (Token.mk kind value p).spelling (before ++ (text ++ rest)) = text := by
  unfold Token.spelling
  simp only [hp, dropBytes_append]
  generalize ht : some (kind, value) = token at h
  cases h with
  | pair hk => cases ht; simp [pairSymbol?_ne hk]
  | symbol hk => cases ht; simp [symbol?_ne hk]
  | string => cases ht; simp
  | quotedName => cases ht; simp [enclosed]
  | number => cases ht; simp
  | @word c cs rest hc =>
    cases ht
    have hq : c ≠ '\'' := by
      rintro rfl
      exact absurd hc (by decide)
    simp [wordKind_ne_string, hq]
  | _ => cases ht

theorem lexFrom_nil (p : Position) : lexFrom p [] = .ok ⟨[], p⟩ := by
  rw [lexFrom.eq_def]

theorem lexFrom_cons (p : Position) (c : Char) (cs : List Char) :
    lexFrom p (c :: cs) =
      match lexeme c cs with
      | .error fault => .error (fault, p)
      | .ok l =>
        match lexFrom (p.advanceAll (c :: cs.take l.more)) (cs.drop l.more) with
        | .error e => .error e
        | .ok ts =>
          match l.token with
          | some (kind, value) => .ok { ts with list := ⟨kind, value, p⟩ :: ts.list }
          | none => .ok ts :=
  (lexFrom.eq_def p (c :: cs)).trans rfl

/-- A run of the lexer from a position on: its tokens, the position that it reaches and the text
that is left there. -/
inductive Lexes : Position → List Char → List Token → Position → List Char → Prop where
  | done {p rest} : Lexes p rest [] p rest
  | skip {p text tail ts q rest} : Reads text tail none → Lexes (p.advanceAll text) tail ts q rest →
      Lexes p (text ++ tail) ts q rest
  | token {p text tail kind value ts q rest} : Reads text tail (some (kind, value)) →
      (∀ c ∈ text.head?, isBlank c = false) → Lexes (p.advanceAll text) tail ts q rest →
      Lexes p (text ++ tail) (⟨kind, value, p⟩ :: ts) q rest

theorem Lexes.cons {p q : Position} {c : Char} {cs rest : List Char} {l : Lexeme}
    {ts : List Token} (hl : lexeme c cs = .ok l)
    (h : Lexes (p.advanceAll (c :: cs.take l.more)) (cs.drop l.more) ts q rest) :
    Lexes p (c :: cs)
      (match l.token with
        | some (kind, value) => ⟨kind, value, p⟩ :: ts
        | none => ts) q rest := by
  obtain ⟨tail, after, rfl, hm, hr, hb⟩ := lexeme_reads hl
  rw [hm, List.take_left, List.drop_left] at h
  cases ht : l.token with
  | none => exact .skip (ht ▸ hr) h
  | some t =>
    have hc : isBlank c = false := hb (by simp [ht])
    exact .token (ht ▸ hr) (by simpa using hc) h

theorem lexes_of_lexFrom {p : Position} {cs : List Char} {ts : Tokens}
    (h : lexFrom p cs = .ok ts) : Lexes p cs ts.list ts.stop [] := by
  induction p, cs using lexFrom.induct generalizing ts with
  | case1 p =>
    rw [lexFrom_nil] at h
    cases h
    exact .done
  | case2 p c cs fault hl => simp [lexFrom_cons, hl] at h
  | case3 p c cs l hl e he => simp [lexFrom_cons, hl, he] at h
  | case4 p c cs l hl ts' ht kind value hk ih =>
    simp only [lexFrom_cons, hl, ht, hk, Except.ok.injEq] at h
    subst h
    simpa only [hk] using Lexes.cons hl (ih ht)
  | case5 p c cs l hl ts' ht hk ih =>
    simp only [lexFrom_cons, hl, ht, hk, Except.ok.injEq] at h
    subst h
    simpa only [hk] using Lexes.cons hl (ih ht)

theorem Lexes.trans {p q r : Position} {xs ys zs : List Char} {ts us : List Token}
    (h : Lexes p xs ts q ys) (h' : Lexes q ys us r zs) : Lexes p xs (ts ++ us) r zs := by
  induction h with
  | done => exact h'
  | skip hr _ ih => exact .skip hr (ih h')
  | token hr hb _ ih => exact .token hr hb (ih h')

theorem lexFrom_of_lexes {p q : Position} {cs rest : List Char} {ts : List Token} {more : Tokens}
    (h : Lexes p cs ts q rest) (hm : lexFrom q rest = .ok more) :
    lexFrom p cs = .ok { more with list := ts ++ more.list } := by
  induction h with
  | done => exact hm
  | @skip p text tail ts q rest hr _ ih =>
    obtain ⟨c, cs, rfl⟩ := List.exists_cons_of_ne_nil (ne_nil_of_reads hr)
    simp only [List.cons_append, lexFrom_cons, lexeme_of_reads hr, List.take_left, List.drop_left,
      ih hm]
  | @token p text tail kind value ts q rest hr _ _ ih =>
    obtain ⟨c, cs, rfl⟩ := List.exists_cons_of_ne_nil (ne_nil_of_reads hr)
    simp only [List.cons_append, lexFrom_cons, lexeme_of_reads hr, List.take_left, List.drop_left,
      ih hm]

theorem lex_of_lexes {source : String} {ts : List Token} {q : Position}
    (h : Lexes .start source.toList ts q []) : lex source = .ok ⟨ts, q⟩ := by
  rw [lex, lexFrom_of_lexes h (lexFrom_nil q), List.append_nil]

theorem lexes_of_lexFrom_error {p q : Position} {cs : List Char} {fault : LexFault}
    (h : lexFrom p cs = .error (fault, q)) :
    ∃ ts c rest, Lexes p cs ts q (c :: rest) ∧ lexeme c rest = .error fault := by
  induction p, cs using lexFrom.induct with
  | case1 p => simp [lexFrom_nil] at h
  | case2 p c cs fault' hl =>
    simp only [lexFrom_cons, hl, Except.error.injEq, Prod.mk.injEq] at h
    obtain ⟨rfl, rfl⟩ := h
    exact ⟨[], c, cs, .done, hl⟩
  | case3 p c cs l hl e he ih =>
    simp only [lexFrom_cons, hl, he, Except.error.injEq] at h
    subst h
    obtain ⟨ts, d, rest, hd, hf⟩ := ih he
    exact ⟨_, d, rest, Lexes.cons hl hd, hf⟩
  | case4 p c cs l hl ts' ht kind value hk => simp [lexFrom_cons, hl, ht, hk] at h
  | case5 p c cs l hl ts' ht hk => simp [lexFrom_cons, hl, ht, hk] at h

theorem lexFrom_of_lex {source : String} {ts : Tokens} (h : lex source = .ok ts) :
    lexFrom .start source.toList = .ok ts := by
  unfold lex at h
  split at h
  next hl => rw [hl, Except.ok.inj h]
  next => cases h

theorem lexFrom_of_lex_error {source : String} {e : LexError} (h : lex source = .error e) :
    lexFrom .start source.toList = .error (e.fault, e.start) := by
  unfold lex at h
  split at h
  next => cases h
  next hl => rw [hl, ← Except.error.inj h]

end FormulaShell.Formula
