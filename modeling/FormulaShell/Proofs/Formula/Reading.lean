import FormulaShell.Formula.Reading
import FormulaShell.Proofs.Formula.DefinitionParsing
import FormulaShell.Proofs.Formula.Numerals

namespace FormulaShell.Formula

theorem mapError_eq_ok {ε ε' α : Type} {x : Except ε α} {f : ε → ε'} {a : α} :
    x.mapError f = .ok a ↔ x = .ok a := by
  cases x <;> simp [Except.mapError]

theorem formula_iff_derivation (ts : Tokens) (e : Expr) :
    formula ts.eof ts.list = .ok e ↔
      ∃ d : Derivation .chain, d.tokens = ts.list ∧ d.nesting ≤ 99 ∧ inSequence d.value = e := by
  constructor
  · intro h
    obtain ⟨d, hd, hv, hn⟩ := formula_sound h
    exact ⟨d, hd, Nat.le_of_lt_succ hn, hv⟩
  · rintro ⟨d, hd, hn, rfl⟩
    rw [← hd]
    exact formula_of_derivation rfl d (Nat.lt_succ_of_le hn)

theorem definitions_iff_derivation (ts : Tokens) (fs : List FunctionDef) :
    definitions ts.eof ts.list = .ok fs ↔
      ∃ d : DefinitionsDerivation, d.tokens = ts.list ∧ d.nesting ≤ 99 ∧ d.value = fs := by
  constructor
  · intro h
    obtain ⟨d, hd, hv, hn⟩ := definitions_sound h
    exact ⟨d, hd, Nat.le_of_lt_succ hn, hv⟩
  · rintro ⟨d, hd, hn, rfl⟩
    rw [← hd]
    exact definitions_of_derivation d (Nat.lt_succ_of_le hn)

theorem Derivation.tokens_injective {s : Symbol} (hs : s.Separate) {d d' : Derivation s}
    (h : d.tokens = d'.tokens) : d = d' := by
  have happend : d.tokens ++ [] = d'.tokens ++ [] := by rw [h]
  exact ((determined d hs).settled (free_nil s) (free_nil s) happend).1

/-- A text is a formula if its tokens have a derivation in which at most 99 signs and brackets enclose
an operand, and in the same way for definitions. Every number among the tokens can be read, so that
what the grammar asks of a number rules out none of them. -/
theorem reading_iff_derivation {source : String} {ts : Tokens} (h : lex source = .ok ts) :
    ((∀ e, readFormula source = .ok e ↔
        ∃ d : Derivation .chain, d.tokens = ts.list ∧ d.nesting ≤ 99 ∧ inSequence d.value = e) ∧
      ∀ d d' : Derivation .chain, d.tokens = ts.list → d'.tokens = ts.list → d = d') ∧
    ((∀ fs, readDefinitions source = .ok fs ↔
        ∃ d : DefinitionsDerivation, d.tokens = ts.list ∧ d.nesting ≤ 99 ∧ d.value = fs) ∧
      ∀ d d' : DefinitionsDerivation, d.tokens = ts.list → d'.tokens = ts.list → d = d') ∧
    ∀ t ∈ ts.list, t.kind = .number → (Number.read? t.value).isSome := by
  have hts : tokens source = .ok ts := mapError_eq_ok.mpr h
  have hchain : Symbol.chain.Separate := trivial
  refine ⟨⟨fun e => ?_, fun d d' hd hd' => ?_⟩, ⟨fun fs => ?_, fun d d' hd hd' => ?_⟩, ?_⟩
  · rw [readFormula, hts]
    exact mapError_eq_ok.trans (formula_iff_derivation ts e)
  · exact Derivation.tokens_injective hchain (hd.trans hd'.symm)
  · rw [readDefinitions, hts]
    exact mapError_eq_ok.trans (definitions_iff_derivation ts fs)
  · exact DefinitionsDerivation.tokens_injective (hd.trans hd'.symm)
  · exact (lexes_of_lexFrom (lexFrom_of_lex h)).isSome_read?

section

variable (s : String) (n : Nat)

def tokenAt (kind : TokenKind) : Terminal kind := ⟨⟨kind, s, ⟨n, 1, n + 1⟩⟩, rfl⟩

def nameAt : (ls : List Level) → Derivation (.row ls)
  | [] => .operand (.unsigned (.bare (.name (tokenAt s n .name))))
  | _ :: ls => .tighter (nameAt ls)

end

def minusAt (n : Nat) : Operator ⟨[.plus, .minus], .left⟩ :=
  ⟨(tokenAt "-" n .minus).1, .sub, by simp [tokenAt], rfl⟩

/-- The derivation of `a-b-c;`. -/
def difference : Derivation .chain :=
  .endLink (.tighter (.tighter (.tighter (.tighter (.left rfl
    (.left rfl (nameAt "a" 0 _) (minusAt 1) (nameAt "b" 2 _)) (minusAt 3) (nameAt "c" 4 _))))))
    (tokenAt ";" 5 .semicolon)

/-- The derivation of `f(x:T):T=x`. -/
def identity : DefinitionsDerivation :=
  .last ⟨tokenAt "f" 0 .name, tokenAt "(" 1 .leftParen,
    some (.last ⟨tokenAt "x" 2 .name, tokenAt ":" 3 .colon, tokenAt "T" 4 .name⟩),
    tokenAt ")" 5 .rightParen, tokenAt ":" 6 .colon, tokenAt "T" 7 .name,
    .equation (tokenAt "=" 8 .equal) (nameAt "x" 9 _)⟩

theorem reading_difference :
    lex "a-b-c;" = .ok ⟨difference.tokens, ⟨6, 1, 7⟩⟩ ∧
    readFormula "a-b-c;" =
      .ok (.binary .sub (.binary .sub (.name "a" 0) (.name "b" 2)) (.name "c" 4)) ∧
    (∀ d : Derivation .chain, d.tokens = difference.tokens → d = difference) ∧
    lex "f(x:T):T=x" = .ok ⟨identity.tokens, ⟨10, 1, 11⟩⟩ ∧
    readDefinitions "f(x:T):T=x" = .ok [⟨"f", 0, [⟨"x", "T", 4⟩], ⟨"T", 7⟩, .name "x" 9⟩] := by
  have hlex : lex "a-b-c;" = .ok ⟨difference.tokens, ⟨6, 1, 7⟩⟩ := by decide +kernel
  have hlex' : lex "f(x:T):T=x" = .ok ⟨identity.tokens, ⟨10, 1, 11⟩⟩ := by decide +kernel
  obtain ⟨⟨hread, hunique⟩, -⟩ := reading_iff_derivation hlex
  obtain ⟨-, ⟨hread', -⟩, -⟩ := reading_iff_derivation hlex'
  exact ⟨hlex, (hread _).mpr ⟨difference, rfl, by decide, rfl⟩, fun d hd => hunique d _ hd rfl,
    hlex', (hread' _).mpr ⟨identity, rfl, by decide, rfl⟩⟩

-- One comparison does not go on with another.
example : (readFormula "a=b=c").isOk = false := by decide +kernel

end FormulaShell.Formula
