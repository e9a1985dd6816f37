import FormulaShell.Proofs.Formula.Denotes
import FormulaShell.Proofs.Formula.Parses
import FormulaShell.Proofs.Formula.Pieces
import FormulaShell.Value.Render

namespace FormulaShell.Formula

open FormulaShell.Text

/-- With `n` operands still allowed inside one another, the text reads as the value. -/
def Written (n : Nat) (v : Value) (text : List Char) : Prop :=
  ∀ p rest, Stops rest →
    ∃ t ts q e, Lexes p (text ++ rest) (t :: ts) q rest ∧ t.kind ≠ .rightBracket ∧
      (∀ eof more, Ends more → Gives (operand eof n (t :: ts ++ more)) e more) ∧ Denotes e v

def listed (texts : List (List Char)) : List Char := [',', ' '].intercalate texts

variable {n : Nat}

theorem not_isWordChar_of_stops {rest : List Char} (h : Stops rest) :
    ∀ c ∈ rest.head?, isWordChar c = false := by
  intro c hc
  obtain rfl | rfl | rfl := eq_of_stops h hc <;> decide +kernel

theorem written_of_atom {v : Value} {text : List Char}
    (h : ∀ p rest, Stops rest →
      ∃ t ts q e, Lexes p (text ++ rest) (t :: ts) q rest ∧
        t.kind ∉ [TokenKind.minus, .negation, .plus, .rightBracket] ∧
        (∀ eof more, Gives (atom eof (expression (operand eof n)) (t :: ts ++ more)) e more) ∧
        Denotes e v) :
    Written (n + 1) v text := by
  intro p rest hr
  obtain ⟨t, ts, q, e, hlex, hstart, hgives, hdenotes⟩ := h p rest hr
  simp only [List.mem_cons, List.not_mem_nil, or_false, not_or] at hstart
  refine ⟨t, ts, q, e, hlex, hstart.2.2.2, fun eof more hm => ?_, hdenotes⟩
  exact ((hgives eof more).suffixed hm).operand (by simp [hstart])

theorem written_blank : Written (n + 1) .blank "Blank()".toList := by
  refine written_of_atom fun p rest hr => ?_
  have hword : Lexes p ("Blank".toList ++ '(' :: ')' :: rest) [⟨.name, "Blank", p⟩] _
      ('(' :: ')' :: rest) :=
    lexes_word (by decide +kernel) (by decide) (by rintro _ ⟨⟩; decide +kernel)
  have hleft := hword.trans (lexes_symbol '(' _ _ rfl (by decide))
  have hright := hleft.trans (lexes_symbol ')' _ _ rfl (by decide))
  exact ⟨_, _, _, _, hright, by simp, fun eof more => (gives_noItems rfl).call rfl rfl,
    denotes_blank _⟩

theorem written_boolean (b : Bool) : Written (n + 1) (.boolean b) (boolText b).toList := by
  refine written_of_atom fun p rest hr => ?_
  have hnext := not_isWordChar_of_stops hr
  cases b with
  | true =>
    exact ⟨_, _, _, _, lexes_word (by decide +kernel) (by decide) hnext, by simp,
      fun eof more => gives_true rfl, denotes_boolean true⟩
  | false =>
    exact ⟨_, _, _, _, lexes_word (by decide +kernel) (by decide) hnext, by simp,
      fun eof more => gives_false rfl, denotes_boolean false⟩

theorem written_text (s : String) : Written (n + 1) (.text s) (Text.quoted s).toList := by
  refine written_of_atom fun p rest hr => ?_
  exact ⟨_, _, _, _, lexes_quoted s hr, by simp, fun eof more => gives_text rfl, denotes_text s⟩

theorem written_numeral {numeral : Number.Numeral} {x y : Float}
    (h : Number.readUnsigned? numeral.chars = some y) (hy : (y == x) = true) :
    Written (n + 1) (.number x) numeral.chars := by
  refine written_of_atom fun p rest hr => ?_
  exact ⟨_, _, _, _, lexes_numeral numeral hr, by simp,
    fun eof more => gives_number rfl (read?_numeral h), denotes_number hy⟩

theorem written_negative {numeral : Number.Numeral} {x y : Float}
    (h : Number.readUnsigned? numeral.chars = some y) (hy : (-y == x) = true) :
    Written (n + 2) (.number x) ('-' :: numeral.chars) := by
  intro p rest hr
  have hsign := lexes_symbol '-' p (numeral.chars ++ rest) rfl (by decide)
  refine ⟨_, _, _, _, hsign.trans (lexes_numeral numeral hr), by simp, fun eof more hm => ?_,
    denotes_neg hy⟩
  have hatom : Gives (atom eof (expression (operand eof n))
      (⟨.number, String.ofList numeral.chars, p.advanceAll ['-']⟩ :: more)) (.number y) more :=
    gives_number rfl (read?_numeral h)
  exact ((hatom.suffixed hm).operand (by simp)).minus rfl

theorem written_number {x : Float} (hx : Number.isFinite x = true) :
    Written (n + 2) (.number x) (Number.text x).toList := by
  obtain ⟨negative, numeral, y, htext, hread, hy⟩ := Number.exists_text hx
  rw [htext]
  cases negative with
  | false => exact written_numeral hread hy
  | true => exact written_negative hread hy

section

variable {text : Value → List Char}

theorem listed_singleton (cs : List Char) : listed [cs] = cs := List.intercalate_singleton

theorem listed_cons (cs ds : List Char) (texts : List (List Char)) :
    listed (cs :: ds :: texts) = cs ++ ',' :: ' ' :: listed (ds :: texts) := by
  rw [listed, List.intercalate_cons_cons, List.append_assoc]
  rfl

theorem lexes_items {v : Value} {vs : List Value} (h : ∀ w ∈ v :: vs, Written n w (text w))
    (p : Position) (rest : List Char) :
    ∃ t ts q es, Lexes p (listed ((v :: vs).map text) ++ ']' :: rest) (t :: ts) q rest ∧
      t.kind ≠ .rightBracket ∧
      (∀ eof more, Gives
        (itemList eof (expression (operand eof n)) .rightBracket (t :: ts ++ more)) es more) ∧
      List.Forall₂ Denotes es (v :: vs) := by
  induction vs generalizing v p with
  | nil =>
    obtain ⟨t, ts, q, e, hlex, hstart, hgives, hdenotes⟩ :=
      h v List.mem_cons_self p (']' :: rest) (stops_cons (by decide))
    have hclose := hlex.trans (lexes_symbol ']' q rest rfl (by decide))
    rw [List.map_cons, List.map_nil, listed_singleton]
    refine ⟨t, ts ++ [Token.mk .rightBracket (String.singleton ']') q], _, [e], hclose, hstart,
      fun eof more => ?_, .cons hdenotes .nil⟩
    rw [List.cons_append, List.append_assoc]
    have hends : Ends (⟨.rightBracket, String.singleton ']', q⟩ :: more) := ends_cons (by simp)
    exact ((hgives eof _ hends).expression hends).lastItem rfl (by simp)
  | cons w vs ih =>
    obtain ⟨t, ts, q, e, hlex, hstart, hgives, hdenotes⟩ :=
      h v List.mem_cons_self p (',' :: ' ' :: (listed ((w :: vs).map text) ++ ']' :: rest))
        (stops_cons (by decide))
    obtain ⟨t', ts', q', es, hlex', -, hgives', hdenotes'⟩ :=
      ih (fun u hu => h u (List.mem_cons_of_mem v hu)) ((q.advanceAll [',']).advanceAll [' '])
    have hcomma := hlex.trans ((lexes_symbol ',' q _ rfl (by decide)).trans
      (lexes_blank.trans hlex'))
    rw [List.map_cons, List.map_cons, listed_cons, List.append_assoc]
    refine ⟨t, ts ++ ⟨.comma, String.singleton ',', q⟩ :: t' :: ts', q', e :: es, hcomma, hstart,
      fun eof more => ?_, .cons hdenotes hdenotes'⟩
    rw [List.cons_append, List.append_assoc]
    have hends : Ends (⟨.comma, String.singleton ',', q⟩ :: (t' :: ts' ++ more)) :=
      ends_cons (by simp)
    exact ((hgives eof _ hends).expression hends).consItem rfl (hgives' eof more)

theorem written_table {vs : List Value} (h : ∀ v ∈ vs, Written n v (text v)) :
    Written (n + 1) (.table (Table.ofValues vs)) ('[' :: (listed (vs.map text) ++ [']'])) := by
  refine written_of_atom fun p rest hr => ?_
  cases vs with
  | nil =>
    have hopen := lexes_symbol '[' p (']' :: rest) rfl (by decide)
    have hclose := hopen.trans (lexes_symbol ']' _ _ rfl (by decide))
    exact ⟨_, _, _, _, hclose, by simp, fun eof more => (gives_noItems rfl).table rfl,
      denotes_table .nil⟩
  | cons v vs =>
    obtain ⟨t, ts, q, es, hlex, hstart, hgives, hdenotes⟩ := lexes_items h (p.advanceAll ['[']) rest
    have hopen := lexes_symbol '[' p (listed ((v :: vs).map text) ++ ']' :: rest) rfl (by decide)
    refine ⟨⟨.leftBracket, String.singleton '[', p⟩, t :: ts, q, .table es, ?_, by simp,
      fun eof more => ((hgives eof more).items hstart).table rfl, denotes_table hdenotes⟩
    rw [List.cons_append, List.append_assoc]
    exact hopen.trans hlex

/-- A name that reads as a name wherever it stands. -/
structure FieldName (s : String) : Prop where
  isName : isName s = true
  wordKind : wordKind s = .name

def fieldText (text : Value → List Char) (p : String × Value) : List Char :=
  p.1.toList ++ ':' :: text p.2

theorem lexes_fieldName {s : String} (h : FieldName s) (p : Position) (rest : List Char) :
    Lexes p (s.toList ++ ':' :: rest)
      [⟨.name, s, p⟩, ⟨.colon, String.singleton ':', p.advanceAll s.toList⟩]
      ((p.advanceAll s.toList).advanceAll [':']) rest :=
  (lexes_word h.isName h.wordKind (by rintro _ ⟨⟩; decide +kernel)).trans
    (lexes_symbol ':' _ _ rfl (by decide))

theorem lexes_fields {f : String × Value} {fs : List (String × Value)}
    (h : ∀ g ∈ f :: fs, FieldName g.1 ∧ Written n g.2 (text g.2)) (seen : List String)
    (hn : (seen ++ (f :: fs).map Prod.fst).Nodup) (p : Position) (rest : List Char) :
    ∃ t ts q es, Lexes p (listed ((f :: fs).map (fieldText text)) ++ '}' :: rest) (t :: ts) q rest ∧
      t.kind = .name ∧
      (∀ eof more, Gives
        (fieldList eof (expression (operand eof n)) seen (t :: ts ++ more)) es more) ∧
      List.Forall₂ (fun e g => e.1 = g.1 ∧ Denotes e.2 g.2) es (f :: fs) := by
  induction fs generalizing f seen p with
  | nil =>
    obtain ⟨hname, hvalue⟩ := h f List.mem_cons_self
    obtain ⟨t, ts, q, e, hlex, -, hgives, hdenotes⟩ := hvalue _ ('}' :: rest) (stops_cons (by decide))
    have hseen : f.1 ∉ seen := fun hm => (List.nodup_append.mp hn).2.2 _ hm _ (by simp) rfl
    have hclose := (lexes_fieldName hname p _).trans
      (hlex.trans (lexes_symbol '}' q rest rfl (by decide)))
    rw [List.map_cons, List.map_nil, listed_singleton, fieldText, List.append_assoc,
      List.cons_append]
    refine ⟨⟨.name, f.1, p⟩, ⟨.colon, String.singleton ':', p.advanceAll f.1.toList⟩ :: t ::
      (ts ++ [Token.mk .rightBrace (String.singleton '}') q]), _, [(f.1, e)], hclose, rfl,
      fun eof more => ?_, .cons ⟨rfl, hdenotes⟩ .nil⟩
    rw [List.cons_append, List.cons_append, List.cons_append, List.append_assoc]
    have hends : Ends (⟨.rightBrace, String.singleton '}', q⟩ :: more) := ends_cons (by simp)
    exact (((hgives eof _ hends).expression hends).field rfl hseen rfl).lastField rfl
  | cons g fs ih =>
    obtain ⟨hname, hvalue⟩ := h f List.mem_cons_self
    obtain ⟨t, ts, q, e, hlex, -, hgives, hdenotes⟩ :=
      hvalue _ (',' :: ' ' :: (listed ((g :: fs).map (fieldText text)) ++ '}' :: rest))
        (stops_cons (by decide))
    have hseen : f.1 ∉ seen := fun hm => (List.nodup_append.mp hn).2.2 _ hm _ (by simp) rfl
    have hn' : ((f.1 :: seen) ++ (g :: fs).map Prod.fst).Nodup := List.perm_middle.nodup_iff.mp hn
    obtain ⟨t', ts', q', es, hlex', -, hgives', hdenotes'⟩ :=
      ih (fun k hk => h k (List.mem_cons_of_mem f hk)) _ hn' ((q.advanceAll [',']).advanceAll [' '])
    have hcomma := (lexes_fieldName hname p _).trans (hlex.trans
      ((lexes_symbol ',' q _ rfl (by decide)).trans (lexes_blank.trans hlex')))
    rw [List.map_cons, List.map_cons, listed_cons, ← List.map_cons, fieldText, List.append_assoc,
      List.append_assoc, List.cons_append]
    refine ⟨⟨.name, f.1, p⟩, ⟨.colon, String.singleton ':', p.advanceAll f.1.toList⟩ :: t ::
      (ts ++ ⟨.comma, String.singleton ',', q⟩ :: t' :: ts'), q', (f.1, e) :: es, hcomma, rfl,
      fun eof more => ?_, .cons ⟨rfl, hdenotes⟩ hdenotes'⟩
    rw [List.cons_append, List.cons_append, List.cons_append, List.append_assoc]
    have hends : Ends (⟨.comma, String.singleton ',', q⟩ :: (t' :: ts' ++ more)) :=
      ends_cons (by simp)
    exact (((hgives eof _ hends).expression hends).field rfl hseen rfl).consField rfl
      (hgives' eof more)

theorem written_record {fs : List (String × Value)}
    (h : ∀ g ∈ fs, FieldName g.1 ∧ Written n g.2 (text g.2)) (hn : (fs.map Prod.fst).Nodup) :
    Written (n + 1) (.record ⟨fs⟩) ('{' :: (listed (fs.map (fieldText text)) ++ ['}'])) := by
  refine written_of_atom fun p rest hr => ?_
  cases fs with
  | nil =>
    have hopen := lexes_symbol '{' p ('}' :: rest) rfl (by decide)
    have hclose := hopen.trans (lexes_symbol '}' _ _ rfl (by decide))
    exact ⟨_, _, _, _, hclose, by simp, fun eof more => (gives_noFields rfl).record rfl,
      denotes_record .nil .nil⟩
  | cons f fs =>
    obtain ⟨t, ts, q, es, hlex, hstart, hgives, hdenotes⟩ :=
      lexes_fields h [] hn (p.advanceAll ['{']) rest
    have hopen := lexes_symbol '{' p (listed ((f :: fs).map (fieldText text)) ++ '}' :: rest) rfl
      (by decide)
    refine ⟨⟨.leftBrace, String.singleton '{', p⟩, t :: ts, q, .record es, ?_, by simp,
      fun eof more => ((hgives eof more).fields (by simp [hstart])).record rfl,
      denotes_record hdenotes hn⟩
    rw [List.cons_append, List.append_assoc]
    exact hopen.trans hlex

end

end FormulaShell.Formula
