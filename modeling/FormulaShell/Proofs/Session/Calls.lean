import FormulaShell.Proofs.Formula.Locality
import FormulaShell.Proofs.Formula.Pieces
import FormulaShell.Proofs.Script.LexerAgreement
import FormulaShell.Proofs.Session.Reached

namespace FormulaShell

open FormulaShell.Formula FormulaShell.Script FormulaShell.Text

namespace Directive

def function : Directive → String
  | help => "Help"
  | reset => "Reset"
  | exit => "Exit"
  | setOption _ _ => "Option"
  | importScript _ => "Import"

def arguments : Directive → List Expr
  | help | reset | exit => []
  | setOption name value => [.text name.text, .boolean value]
  | importScript path => [.text path]

def call (d : Directive) : Expr := .call d.function d.arguments 0

def argumentText : Directive → String
  | help | reset | exit => ""
  | setOption name value => Text.quoted name.text ++ (", " ++ boolText value)
  | importScript path => Text.quoted path

def statement (d : Directive) : String := d.function ++ ("(" ++ (d.argumentText ++ ")"))

variable (d : Directive)

theorem toList_statement :
    d.statement.toList = d.function.toList ++ '(' :: (d.argumentText.toList ++ [')']) := by
  rw [statement, String.toList_append, String.toList_append, String.toList_append]
  rfl

theorem lexes_arguments (p : Position) : ∃ ts q,
    Lexes p (d.argumentText.toList ++ [')']) ts q [')'] ∧
      ∀ (eof : Token) (left right : Position),
        formula eof (⟨.name, d.function, .start⟩ :: ⟨.leftParen, "(", left⟩ ::
          (ts ++ [⟨.rightParen, ")", right⟩])) = .ok d.call := by
  cases d with
  | setOption name value =>
    have hname : Lexes p ((Text.quoted name.text).toList ++
        ',' :: ' ' :: ((boolText value).toList ++ [')'])) _ _ _ :=
      lexes_string name.text (by simp)
    have hcomma := hname.trans ((lexes_symbol ',' _ _ rfl (by decide)).trans lexes_blank)
    have hstop : ∀ c ∈ [')'].head?, isWordChar c = false := by
      rintro _ ⟨⟩
      decide +kernel
    rw [argumentText, String.toList_append, String.toList_append, List.append_assoc]
    cases value with
    | true =>
      refine ⟨_, _, hcomma.trans (lexes_word (s := "true") (by decide +kernel) rfl hstop), ?_⟩
      intro eof left right
      cbv
    | false =>
      refine ⟨_, _, hcomma.trans (lexes_word (s := "false") (by decide +kernel) rfl hstop), ?_⟩
      intro eof left right
      cbv
  | importScript path =>
    refine ⟨_, _, lexes_string path (by decide), ?_⟩
    intro eof left right
    cbv
  | _ =>
    refine ⟨[], p, .done, ?_⟩
    intro eof left right
    cbv

theorem lexes_statement : ∃ ts q,
    Lexes .start d.statement.toList (⟨.name, d.function, .start⟩ :: ts) q [] ∧
      ∀ eof, formula eof (⟨.name, d.function, .start⟩ :: ts) = .ok d.call := by
  have hname : isName d.function = true := by cases d <;> simp only [function] <;> decide +kernel
  have hkind : wordKind d.function = .name := by cases d <;> simp only [function] <;> decide
  have hword : Lexes .start (d.function.toList ++ '(' :: (d.argumentText.toList ++ [')']))
      [⟨.name, d.function, .start⟩] _ ('(' :: (d.argumentText.toList ++ [')'])) :=
    lexes_word hname hkind (by rintro _ ⟨⟩; decide +kernel)
  have hleft := hword.trans (lexes_symbol '(' _ _ rfl (by decide))
  obtain ⟨ts, q, harguments, hparse⟩ := d.lexes_arguments
    ((Position.start.advanceAll d.function.toList).advanceAll ['('])
  have hright := (hleft.trans harguments).trans (lexes_symbol ')' q [] rfl (by decide))
  rw [toList_statement]
  exact ⟨_, _, hright, fun eof => hparse eof _ _⟩

theorem readFormula_statement : readFormula d.statement = .ok d.call := by
  obtain ⟨ts, q, hlex, hparse⟩ := d.lexes_statement
  rw [readFormula, tokens, lex_of_lexes hlex]
  change (formula _ (_ :: ts)).mapError ReadError.parse = .ok d.call
  rw [hparse]
  rfl

theorem trim_statement : trim d.statement.toList = d.statement.toList := by
  have hstart : trimStart d.statement.toList = d.statement.toList := by
    rw [toList_statement]
    generalize d.argumentText.toList ++ [')'] = rest
    cases d <;> cbv
  have hend (cs : List Char) : trimEnd (cs ++ [')']) = cs ++ [')'] := by
    have hblank : Text.isBlank ')' = false := by decide
    simp [trimEnd, hblank]
  rw [trim, hstart, toList_statement, ← List.cons_append, ← List.append_assoc, hend]

theorem useful_statement : (scan d.statement.toList).useful ≠ 0 := by
  obtain ⟨ts, q, hlex, -⟩ := d.lexes_statement
  obtain ⟨used, hu, -, -, huseful⟩ := run_of_lexes hlex [] (between_start _) rfl
  have hpos := useful_spelling_pos hlex [] rfl _ List.mem_cons_self
  rw [List.append_nil] at hu
  rw [← hu, List.flatMap_cons, usefulIn_append] at huseful
  rw [scan, huseful]
  omega

theorem classify_statement : classify d.statement.toList = .evaluation d.statement := by
  have hassignment : assignment? d.statement.toList = none := by
    rw [toList_statement]
    generalize d.argumentText.toList ++ [')'] = rest
    cases d <;> cbv
  have hformula : namedFormula? d.statement.toList = none := by
    rw [toList_statement]
    generalize d.argumentText.toList ++ [')'] = rest
    cases d <;> cbv
  have hdefinition : isDefinition d.statement.toList = false := by
    rw [toList_statement]
    cases d with
    | setOption name value =>
      rw [argumentText, String.toList_append, toList_quoted, enclosed]
      generalize doubled '"' name.text.toList ++ ['"'] = rest
      cbv
    | importScript path =>
      rw [argumentText, toList_quoted, enclosed]
      generalize doubled '"' path.toList ++ ['"'] = rest
      cbv
    | _ => decide +kernel
  rw [classify, trim_statement]
  simp only [if_neg d.useful_statement, hassignment, hformula, hdefinition, Bool.false_eq_true,
    if_false, String.ofList_toList]

end Directive

namespace Workbook

variable {w : Workbook Directives}

theorem check_call (h : Equipped w) (d : Directive) :
    check (w.scope .empty) true d.call = .ok () := by
  obtain ⟨values, bindings, formulas, functions, hosts⟩ := w
  obtain ⟨rfl, hf⟩ := h
  have hnone : functions.get? d.function = none := hf _ (by cases d <;> rfl)
  rw [Directive.call, check, scope]
  simp only [arity?]
  rw [hnone]
  cases d with
  | setOption name value => cases name; rfl
  | _ => rfl

theorem evaluate_call (h : Equipped w) (d : Directive) :
    Formula.evaluate (w.environment .empty .never) d.call [] = (.ok (.boolean true), [d]) := by
  obtain ⟨values, bindings, formulas, functions, hosts⟩ := w
  obtain ⟨rfl, hf⟩ := h
  have hnone : functions.get? d.function = none := hf _ (by cases d <;> rfl)
  rw [Formula.evaluate, maxCallDepth, evalAt, Directive.call, eval_call, callee]
  simp only [environment]
  rw [hnone]
  cases d with
  | setOption name value => cases name; rfl
  | _ => rfl

theorem execute_call (h : Equipped w) (d : Directive) :
    w.execute (classify d.statement.toList) .never [] =
      (⟨w, some (.shown (.boolean true)), []⟩, [d]) := by
  have hevaluate : w.evaluate d.statement .empty .never [] = (.ok (.boolean true), [d]) := by
    rw [evaluate_of_reads d.readFormula_statement (check_call h d), evaluate_call h]
    rfl
  rw [d.classify_statement, execute, resultOf, hevaluate]

end Workbook

/-- The statement of a directive comes to the directive alone. -/
theorem Session.execute_statement {s : Session} (h : s.workbook.Equipped) (d : Directive) :
    s.execute d.statement.toList .never = carryOut (s, ⟨[], [], false⟩) d := by
  rw [execute_eq, called, answered, called, Workbook.execute_call h]
  rfl

end FormulaShell
