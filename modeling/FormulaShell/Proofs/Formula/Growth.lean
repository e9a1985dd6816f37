import FormulaShell.Proofs.Formula.Height
import FormulaShell.Proofs.Formula.LineEnds
import FormulaShell.Proofs.Formula.Pieces
import FormulaShell.Proofs.Formula.Reading

namespace FormulaShell.Formula

open FormulaShell.Text

/-- A text that no word before it can go on with. -/
def EndsWord (cs : List Char) : Prop := ∀ c ∈ cs.head?, isWordChar c = false

theorem endsWord_nil : EndsWord [] := by
  intro c hc
  cases hc

theorem endsWord_cons {c : Char} {cs : List Char} (h : isWordChar c = false) :
    EndsWord (c :: cs) := by
  rintro _ ⟨⟩
  exact h

/-- A text that lexes to tokens of some kinds and values, wherever it stands before something that
is no part of a word. -/
def Spells (cs : List Char) (contents : List (TokenKind × String)) : Prop :=
  ∀ p rest, EndsWord rest →
    ∃ ts q, Lexes p (cs ++ rest) ts q rest ∧ ts.map Token.content = contents

theorem spells_nil : Spells [] [] := fun p _ _ => ⟨[], p, .done, rfl⟩

section

variable {xs ys : List Char} {a b unit : List (TokenKind × String)}

theorem Spells.append (ha : Spells xs a) (hb : Spells ys b) (hy : EndsWord ys) :
    Spells (xs ++ ys) (a ++ b) := by
  intro p rest hr
  have hhead : EndsWord (ys ++ rest) := by
    cases ys with
    | nil => exact hr
    | cons c ys => exact hy
  obtain ⟨ts, q, hts, rfl⟩ := ha p (ys ++ rest) hhead
  obtain ⟨us, r, hus, rfl⟩ := hb q rest hr
  exact ⟨ts ++ us, r, by rw [List.append_assoc]; exact hts.trans hus, List.map_append⟩

theorem endsWord_replicate (hy : EndsWord ys) (k : Nat) :
    EndsWord (List.replicate k ys).flatten := by
  induction k with
  | zero => exact endsWord_nil
  | succ k ih =>
    rw [List.replicate_succ, List.flatten_cons]
    cases ys with
    | nil => exact ih
    | cons c ys => exact hy

theorem Spells.replicate (h : Spells ys b) (hy : EndsWord ys) (k : Nat) :
    Spells (List.replicate k ys).flatten (List.replicate k b).flatten := by
  induction k with
  | zero => exact spells_nil
  | succ k ih =>
    rw [List.replicate_succ, List.replicate_succ, List.flatten_cons, List.flatten_cons]
    exact h.append ih (endsWord_replicate hy k)

theorem Spells.symbol {c : Char} {kind : TokenKind} (h : Spells ys b) (hk : symbol? c = some kind)
    (hc : c ∉ ['/', '<', '>', '&', '|']) : Spells (c :: ys) ((kind, String.singleton c) :: b) := by
  intro p rest hr
  obtain ⟨ts, q, hts, rfl⟩ := h (p.advanceAll [c]) rest hr
  exact ⟨_, q, (lexes_symbol c p (ys ++ rest) hk hc).trans hts, rfl⟩

theorem spells_word {s : String} (hs : isName s = true) : Spells s.toList [(wordKind s, s)] :=
  fun _ _ hr => ⟨_, _, lexes_word hs rfl hr, rfl⟩

theorem Spells.lex (h : Spells xs a) :
    ∃ ts, Formula.lex (String.ofList xs) = .ok ts ∧ ts.list.map Token.content = a := by
  obtain ⟨ts, q, hts, hcontent⟩ := h .start [] endsWord_nil
  refine ⟨⟨ts, q⟩, lex_of_lexes ?_, hcontent⟩
  rwa [List.append_nil, ← String.toList_ofList (l := xs)] at hts

end

def Derivation.ofName (t : Terminal .name) : (ls : List Level) → Derivation (.row ls)
  | [] => .operand (.unsigned (.bare (.name t)))
  | _ :: ls => .tighter (ofName t ls)

theorem Derivation.ofName_spec (t : Terminal .name) (ls : List Level) :
    (ofName t ls).tokens = [t.1] ∧ (ofName t ls).nesting = 0 ∧ (ofName t ls).value.height = 1 := by
  induction ls with
  | nil => exact ⟨rfl, rfl, rfl⟩
  | cons l ls ih => exact ih

section

variable {unit : List (TokenKind × String)} {ts : List Token}

theorem kind_of_content {t : Token} {kind : TokenKind} {value : String}
    (h : t.content = (kind, value)) : t.kind = kind :=
  congrArg Prod.fst h

theorem Derivation.exists_higher {s : Symbol}
    (step : ∀ (d : Derivation s) (us : List Token), us.map Token.content = unit →
      ∃ d' : Derivation s, d'.tokens = d.tokens ++ us ∧ d'.nesting = d.nesting ∧
        s.height d'.value = s.height d.value + 1)
    (d : Derivation s) {k : Nat} (h : ts.map Token.content = (List.replicate k unit).flatten) :
    ∃ d' : Derivation s, d'.tokens = d.tokens ++ ts ∧ d'.nesting = d.nesting ∧
      s.height d'.value = s.height d.value + k := by
  induction k generalizing d ts with
  | zero =>
    obtain rfl := List.map_eq_nil_iff.mp h
    exact ⟨d, (List.append_nil _).symm, rfl, rfl⟩
  | succ k ih =>
    rw [List.replicate_succ, List.flatten_cons] at h
    obtain ⟨us, vs, rfl, hus, hvs⟩ := List.map_eq_append_iff.mp h
    obtain ⟨d₁, htokens₁, hnesting₁, hheight₁⟩ := step d us hus
    obtain ⟨d₂, htokens₂, hnesting₂, hheight₂⟩ := ih d₁ hvs
    refine ⟨d₂, ?_, hnesting₂.trans hnesting₁, ?_⟩
    · rw [htokens₂, htokens₁, List.append_assoc]
    · rw [hheight₂, hheight₁, Nat.add_assoc, Nat.add_comm 1]

/-- A name and then some tokens, over and over, make an expression that they make higher. -/
def Climbs (unit : List (TokenKind × String)) : Prop :=
  ∀ (k : Nat) (ts : List Token),
    ts.map Token.content = (.name, "x") :: (List.replicate k unit).flatten →
      ∃ d : Derivation .expression, d.tokens = ts ∧ d.nesting = 0 ∧ d.value.height = k + 1

theorem climbs_of_suffix
    (step : ∀ (d : Derivation .suffixed) (us : List Token), us.map Token.content = unit →
      ∃ d' : Derivation .suffixed, d'.tokens = d.tokens ++ us ∧ d'.nesting = d.nesting ∧
        d'.value.height = d.value.height + 1) : Climbs unit := by
  intro k ts h
  obtain ⟨x, ts, rfl, hx, hts⟩ := List.map_eq_cons_iff.mp h
  obtain ⟨d, htokens, hnesting, hheight⟩ :=
    Derivation.exists_higher step (.bare (.name ⟨x, kind_of_content hx⟩)) hts
  refine ⟨.tighter (.tighter (.tighter (.tighter (.tighter (.tighter (.tighter
    (.operand (.unsigned d)))))))), htokens, hnesting, ?_⟩
  exact hheight.trans (Nat.add_comm 1 k)

theorem climbs_percent : Climbs [(.percent, "%")] := by
  refine climbs_of_suffix fun d us h => ?_
  obtain ⟨mark, us, rfl, hmark, hus⟩ := List.map_eq_cons_iff.mp h
  obtain rfl := List.map_eq_nil_iff.mp hus
  exact ⟨.percent d ⟨mark, kind_of_content hmark⟩, rfl, rfl, rfl⟩

theorem climbs_field : Climbs [(.dot, "."), (.name, "x")] := by
  refine climbs_of_suffix fun d us h => ?_
  obtain ⟨dot, us, rfl, hdot, hus⟩ := List.map_eq_cons_iff.mp h
  obtain ⟨n, us, rfl, hn, hus⟩ := List.map_eq_cons_iff.mp hus
  obtain rfl := List.map_eq_nil_iff.mp hus
  exact ⟨.field d ⟨dot, kind_of_content hdot⟩ ⟨n, kind_of_content hn⟩, rfl, rfl, rfl⟩

theorem Derivation.exists_sum (d : Derivation (.row (levels.drop 4))) (us : List Token)
    (h : us.map Token.content = [(.plus, "+"), (.name, "x")]) :
    ∃ d' : Derivation (.row (levels.drop 4)), d'.tokens = d.tokens ++ us ∧
      d'.nesting = d.nesting ∧ d'.value.height = d.value.height + 1 := by
  obtain ⟨op, us, rfl, hop, hus⟩ := List.map_eq_cons_iff.mp h
  obtain ⟨y, us, rfl, hy, hus⟩ := List.map_eq_cons_iff.mp hus
  obtain rfl := List.map_eq_nil_iff.mp hus
  have hkind := kind_of_content hop
  obtain ⟨htokens, hnesting, hheight⟩ :=
    ofName_spec ⟨y, kind_of_content hy⟩ (levels.drop 5)
  refine ⟨.left rfl d ⟨op, .add, by rw [hkind]; decide, by rw [hkind]; rfl⟩
    (ofName ⟨y, kind_of_content hy⟩ (levels.drop 5)), ?_, ?_, ?_⟩
  · exact congrArg (d.tokens ++ op :: ·) htokens
  · exact (congrArg (max d.nesting) hnesting).trans (Nat.max_zero _)
  · refine congrArg (· + 1) ((congrArg (max d.value.height) hheight).trans ?_)
    exact Nat.max_eq_left d.value.height_pos

theorem climbs_sum : Climbs [(.plus, "+"), (.name, "x")] := by
  intro k ts h
  obtain ⟨x, ts, rfl, hx, hts⟩ := List.map_eq_cons_iff.mp h
  obtain ⟨hfirst, hnone, hone⟩ := Derivation.ofName_spec ⟨x, kind_of_content hx⟩ (levels.drop 4)
  obtain ⟨d, htokens, hnesting, hheight⟩ := Derivation.exists_higher Derivation.exists_sum
    (.ofName ⟨x, kind_of_content hx⟩ (levels.drop 4)) hts
  refine ⟨.tighter (.tighter (.tighter (.tighter d))), ?_, hnesting.trans hnone, ?_⟩
  · exact htokens.trans (congrArg (· ++ ts) hfirst)
  · exact hheight.trans ((congrArg (· + k) hone).trans (Nat.add_comm 1 k))

/-- Powers are joined from right to left, and the first operand goes on top. -/
theorem Derivation.exists_power {k : Nat} (h : ts.map Token.content =
      (.name, "x") :: (List.replicate k [(TokenKind.caret, "^"), (.name, "x")]).flatten) :
    ∃ d : Derivation (.row (levels.drop 6)), d.tokens = ts ∧ d.nesting = 0 ∧
      d.value.height = k + 1 := by
  induction k generalizing ts with
  | zero =>
    obtain ⟨x, ts, rfl, hx, hts⟩ := List.map_eq_cons_iff.mp h
    obtain rfl := List.map_eq_nil_iff.mp hts
    exact ⟨_, ofName_spec ⟨x, kind_of_content hx⟩ (levels.drop 6)⟩
  | succ k ih =>
    obtain ⟨x, ts, rfl, hx, hts⟩ := List.map_eq_cons_iff.mp h
    obtain ⟨op, ts, rfl, hop, hts⟩ := List.map_eq_cons_iff.mp hts
    obtain ⟨d, htokens, hnesting, hheight⟩ := ih hts
    have hkind := kind_of_content hop
    refine ⟨.right rfl (ofName ⟨x, kind_of_content hx⟩ [])
      ⟨op, .pow, by rw [hkind]; decide, by rw [hkind]; rfl⟩ d, ?_, ?_, ?_⟩
    · exact congrArg (x :: op :: ·) htokens
    · exact (congrArg (max 0) hnesting).trans (Nat.max_zero _)
    · refine congrArg (· + 1) ((congrArg (max 1) hheight).trans ?_)
      exact Nat.max_eq_right (Nat.le_add_left ..)

theorem climbs_power : Climbs [(.caret, "^"), (.name, "x")] := by
  intro k ts h
  obtain ⟨d, htokens, hnesting, hheight⟩ := Derivation.exists_power h
  exact ⟨.tighter (.tighter (.tighter (.tighter (.tighter (.tighter d))))), htokens, hnesting,
    hheight⟩

end

def repeated (first more : String) (k : Nat) : String :=
  String.ofList (first.toList ++ (List.replicate k more.toList).flatten)

section

variable {more : String} {unit : List (TokenKind × String)}

theorem lex_repeated {first : String} {start : List (TokenKind × String)}
    (hs : Spells first.toList start) (hm : Spells more.toList unit) (hhead : EndsWord more.toList)
    (k : Nat) :
    ∃ ts, lex (repeated first more k) = .ok ts ∧
      ts.list.map Token.content = start ++ (List.replicate k unit).flatten :=
  (hs.append (hm.replicate hhead k) (endsWord_replicate hhead k)).lex

theorem readFormula_climbing (hm : Spells more.toList unit) (hhead : EndsWord more.toList)
    (hc : Climbs unit) (k : Nat) :
    ∃ e, readFormula (repeated "x" more k) = .ok e ∧ e.height = k + 1 := by
  obtain ⟨ts, hlex, hts⟩ := lex_repeated (spells_word (s := "x") (by decide +kernel)) hm hhead k
  obtain ⟨d, htokens, hnesting, hheight⟩ := hc k ts.list hts
  have hformula : formula ts.eof ts.list = .ok d.value :=
    (formula_iff_derivation ts d.value).mpr
      ⟨.lastLink d, htokens, hnesting.le.trans (Nat.zero_le _), rfl⟩
  refine ⟨d.value, ?_, hheight⟩
  rw [readFormula, tokens, hlex]
  exact congrArg (Except.mapError ReadError.parse) hformula

theorem spells_head : Spells "f():T=x".toList
    [(.name, "f"), (.leftParen, "("), (.rightParen, ")"), (.colon, ":"), (.name, "T"),
      (.equal, "="), (.name, "x")] := by
  have hf := spells_word (s := "f") (by decide +kernel)
  have ht := spells_word (s := "T") (by decide +kernel)
  have hx := spells_word (s := "x") (by decide +kernel)
  have hbody := hx.symbol (show symbol? '=' = some .equal from rfl) (by decide)
  have htype := ht.append hbody (endsWord_cons (by decide +kernel))
  have hcolon := htype.symbol (show symbol? ':' = some .colon from rfl) (by decide)
  have hclose := hcolon.symbol (show symbol? ')' = some .rightParen from rfl) (by decide)
  have hopen := hclose.symbol (show symbol? '(' = some .leftParen from rfl) (by decide)
  exact hf.append hopen (endsWord_cons (by decide +kernel))

theorem readDefinitions_climbing (hm : Spells more.toList unit) (hhead : EndsWord more.toList)
    (hc : Climbs unit) (k : Nat) :
    ∃ f, readDefinitions (repeated "f():T=x" more k) = .ok [f] ∧ f.body.height = k + 1 := by
  obtain ⟨⟨list, stop⟩, hlex, hts⟩ := lex_repeated spells_head hm hhead k
  obtain ⟨name, ts, rfl, hname, hts⟩ := List.map_eq_cons_iff.mp hts
  obtain ⟨open_, ts, rfl, hopen, hts⟩ := List.map_eq_cons_iff.mp hts
  obtain ⟨close, ts, rfl, hclose, hts⟩ := List.map_eq_cons_iff.mp hts
  obtain ⟨colon, ts, rfl, hcolon, hts⟩ := List.map_eq_cons_iff.mp hts
  obtain ⟨type, ts, rfl, htype, hts⟩ := List.map_eq_cons_iff.mp hts
  obtain ⟨equal, ts, rfl, hequal, hts⟩ := List.map_eq_cons_iff.mp hts
  obtain ⟨e, rfl, hnesting, hheight⟩ := hc k ts hts
  let d : DefinitionDerivation :=
    ⟨⟨name, kind_of_content hname⟩, ⟨open_, kind_of_content hopen⟩, none,
      ⟨close, kind_of_content hclose⟩, ⟨colon, kind_of_content hcolon⟩,
      ⟨type, kind_of_content htype⟩, .equation ⟨equal, kind_of_content hequal⟩ e⟩
  have hread := (definitions_iff_derivation
    ⟨name :: open_ :: close :: colon :: type :: equal :: e.tokens, stop⟩ [d.value]).mpr
      ⟨.last d, rfl, hnesting.le.trans (Nat.zero_le _), rfl⟩
  refine ⟨d.value, ?_, hheight⟩
  rw [readDefinitions, tokens, hlex]
  exact congrArg (Except.mapError ReadError.parse) hread

end

theorem exists_climbs {more : String} (h : more ∈ ["+x", "^x", "%", ".x"]) :
    ∃ unit, Spells more.toList unit ∧ EndsWord more.toList ∧ Climbs unit := by
  have hx := spells_word (s := "x") (by decide +kernel)
  simp only [List.mem_cons, List.not_mem_nil, or_false] at h
  obtain rfl | rfl | rfl | rfl := h
  · exact ⟨_, hx.symbol rfl (by decide), endsWord_cons (by decide +kernel), climbs_sum⟩
  · exact ⟨_, hx.symbol rfl (by decide), endsWord_cons (by decide +kernel), climbs_power⟩
  · exact ⟨_, spells_nil.symbol rfl (by decide), endsWord_cons (by decide +kernel),
      climbs_percent⟩
  · exact ⟨_, hx.symbol rfl (by decide), endsWord_cons (by decide +kernel), climbs_field⟩

/-- A sum, powers, percent signs and field names are read at any length, and are as high as they
are long. -/
theorem reading_of_repeated {more : String} (h : more ∈ ["+x", "^x", "%", ".x"]) (k : Nat) :
    (∃ e, readFormula (repeated "x" more k) = .ok e ∧ e.height = k + 1) ∧
      ∃ f, readDefinitions (repeated "f():T=x" more k) = .ok [f] ∧ f.body.height = k + 1 := by
  obtain ⟨unit, hspells, hends, hclimbs⟩ := exists_climbs h
  exact ⟨readFormula_climbing hspells hends hclimbs k,
    readDefinitions_climbing hspells hends hclimbs k⟩

/-- The height of a formula is at least the length of its longest run, and at most that of one such
run for each nesting that is allowed. The same holds for the bodies of functions. -/
theorem height_of_reading {source : String} {ts : Tokens} (h : lex source = .ok ts) :
    (∀ e, readFormula source = .ok e → ∃ d : Derivation .chain, d.tokens = ts.list ∧
      inSequence d.value = e ∧ d.longestRun ≤ e.height ∧
      e.height ≤ maxNesting * d.longestRun + 1) ∧
    ∀ fs, readDefinitions source = .ok fs → ∀ f ∈ fs, ∃ b : BodyDerivation,
      b.tokens <:+: ts.list ∧ b.value = f.body ∧ b.longestRun ≤ f.body.height ∧
      f.body.height ≤ maxNesting * b.longestRun + 1 := by
  have hts : tokens source = .ok ts := mapError_eq_ok.mpr h
  refine ⟨fun e he => ?_, fun fs hfs f hf => ?_⟩
  · rw [readFormula, hts] at he
    obtain ⟨d, hd, hn, rfl⟩ := (formula_iff_derivation ts e).mp (mapError_eq_ok.mp he)
    exact ⟨d, hd, rfl, d.height_chain (Nat.lt_succ_of_le hn)⟩
  · rw [readDefinitions, hts] at hfs
    obtain ⟨d, hd, hn, rfl⟩ := (definitions_iff_derivation ts fs).mp (mapError_eq_ok.mp hfs)
    obtain ⟨b, hb, hv, hbn⟩ := d.exists_body hf
    refine ⟨b, hd ▸ hb, hv, ?_⟩
    rw [← hv]
    exact b.height_value (Nat.lt_succ_of_le (hbn.trans hn))

def shareText : String := "f():T=-(x+x*x%)"

theorem height_of_shareText : ∃ f, readDefinitions shareText = .ok [f] ∧ f.body.height = 5 ∧
    ∃ b : BodyDerivation, b.value = f.body ∧ b.longestRun ≤ 5 ∧ 5 ≤ 100 * b.longestRun + 1 := by
  have hread : ((readDefinitions shareText).toOption.map (·.map (·.body.height))) = some [5] := by
    decide +kernel
  cases hlex : lex shareText with
  | error e =>
    rw [readDefinitions, tokens, hlex] at hread
    cases hread
  | ok ts =>
    cases hfs : readDefinitions shareText with
    | error e =>
      rw [hfs] at hread
      cases hread
    | ok fs =>
      rw [hfs] at hread
      obtain ⟨f, fs, rfl, hf, hnil⟩ := List.map_eq_cons_iff.mp (Option.some.inj hread)
      obtain rfl := List.map_eq_nil_iff.mp hnil
      obtain ⟨b, -, hb, hlow, hhigh⟩ := (height_of_reading hlex).2 _ hfs f (List.mem_singleton_self f)
      rw [hf] at hlow hhigh
      exact ⟨f, rfl, hf, b, hb, hlow, hhigh⟩

/-- No height is the greatest that is read. -/
theorem not_exists_height_bound :
    (¬ ∃ bound, ∀ source e, readFormula source = .ok e → e.height ≤ bound) ∧
      ¬ ∃ bound, ∀ source fs, readDefinitions source = .ok fs → ∀ f ∈ fs,
        f.body.height ≤ bound := by
  have hpower : "^x" ∈ ["+x", "^x", "%", ".x"] := by decide
  constructor
  · rintro ⟨bound, h⟩
    obtain ⟨⟨e, he, hheight⟩, -⟩ := reading_of_repeated hpower bound
    exact absurd (h _ e he) (by omega)
  · rintro ⟨bound, h⟩
    obtain ⟨-, f, hf, hheight⟩ := reading_of_repeated hpower bound
    exact absurd (h _ [f] hf f (List.mem_singleton_self f)) (by omega)

end FormulaShell.Formula
