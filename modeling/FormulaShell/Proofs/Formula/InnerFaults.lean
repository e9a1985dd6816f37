import FormulaShell.Proofs.Formula.CursorReading
import FormulaShell.Proofs.Formula.Reading

namespace FormulaShell.Formula

open FormulaShell.Text

theorem sourced_of_lex {source : String} {ts : Tokens} (h : lex source = .ok ts) :
    Sourced ts.eof ts.list := by
  have hlexes := lexes_of_lexFrom (lexFrom_of_lex h)
  exact ⟨rfl, fun t ht => (hlexes.kind t ht).1, hlexes.isSome_read?⟩

theorem EndsAlike.isInternal_eq_false {α : Type} {tokens : List Token} {y : Except Halt (α × Nat)}
    {e : ParseError} (h : EndsAlike tokens y (.error e)) : e.fault.isInternal = false := by
  cases h with
  | fault he => exact he

/-- The codes of the faults that no text has. -/
def internalCodes : List String := ["PAR010", "PAR020"]

theorem LexFault.code_notMem (fault : LexFault) : fault.code ∉ internalCodes := by
  cases fault <;> simp [code, internalCodes]

theorem ParseFault.code_notMem {fault : ParseFault} (h : fault.isInternal = false) :
    fault.code ∉ internalCodes := by
  cases fault with
  | unknownOperator | badNumber => cases h
  | _ => simp [code, internalCodes]

theorem code_notMem_of_read {α : Type} {source : String} {parse : Tokens → Except ParseError α}
    (hparse : ∀ ts, lex source = .ok ts → ∀ e, parse ts = .error e → e.fault.isInternal = false)
    {e : ReadError}
    (h : (tokens source >>= fun ts => (parse ts).mapError .parse) = .error e) :
    e.diagnostic.code ∉ internalCodes := by
  cases hlex : lex source with
  | error f =>
    rw [tokens, hlex] at h
    cases h
    exact f.fault.code_notMem
  | ok ts =>
    rw [tokens, hlex] at h
    change (parse ts).mapError .parse = .error e at h
    cases hf : parse ts with
    | error f =>
      rw [hf] at h
      cases h
      exact ParseFault.code_notMem (hparse ts hlex f hf)
    | ok =>
      rw [hf] at h
      cases h

/-- Every number of a text is written as numbers are, and the reader of numbers takes all that are
written so. The operators of the levels are those with a meaning. So the parser ends as it does with
a cursor that stays at the tokens, and with none of the faults that tell of a broken promise. -/
theorem reading_keeps_promises (source : String) :
    (∀ ts, lex source = .ok ts →
      (∀ t ∈ ts.list, t.kind = .number → IsNumber t.value.toList) ∧
      EndsAlike ts.toList (Walk.formula ts.toList 0) (formula ts.eof ts.list) ∧
      EndsAlike ts.toList (Walk.definitions ts.toList 0) (definitions ts.eof ts.list)) ∧
    (∀ s : String, IsNumber s.toList → (Number.read? s).isSome) ∧
    (∀ kind, (binaryOp? kind).isSome ↔ ∃ l ∈ levels, kind ∈ l.kinds) ∧
    ∀ e, readFormula source = .error e ∨ readDefinitions source = .error e →
      e.diagnostic.code ∉ internalCodes := by
  have hformula (ts) (h : lex source = .ok ts) := endsAlike_formula (sourced_of_lex h)
  have hdefinitions (ts) (h : lex source = .ok ts) := endsAlike_definitions (sourced_of_lex h)
  refine ⟨fun ts h => ⟨fun t ht => ?_, hformula ts h, hdefinitions ts h⟩,
    fun s hs => hs.isSome_read?, isSome_binaryOp?_iff, fun e he => ?_⟩
  · exact ((lexes_of_lexFrom (lexFrom_of_lex h)).kind t ht).2
  · obtain he | he := he
    · exact code_notMem_of_read (fun ts h f hf => (hf ▸ hformula ts h).isInternal_eq_false) he
    · exact code_notMem_of_read (fun ts h f hf => (hf ▸ hdefinitions ts h).isInternal_eq_false) he

def decreased : Tokens :=
  ⟨[⟨.name, "a", ⟨0, 1, 1⟩⟩, ⟨.minus, "-", ⟨1, 1, 2⟩⟩, ⟨.number, "2.5e+1", ⟨2, 1, 3⟩⟩], ⟨8, 1, 9⟩⟩

theorem promises_kept_for_difference :
    lex "a-2.5e+1" = .ok decreased ∧
    IsNumber "2.5e+1".toList ∧ (Number.read? "2.5e+1").isSome ∧
    (∃ e, EndsAlike decreased.toList (Walk.formula decreased.toList 0) (.ok e)) ∧
    EndsAlike decreased.toList (Walk.definitions decreased.toList 0)
      (.error ⟨.expected .leftParen .minus "-", ⟨1, 1, 2⟩⟩) ∧
    ∃ e, readDefinitions "a-2.5e+1" = .error e ∧ e.diagnostic.code ∉ internalCodes := by
  have hlex : lex "a-2.5e+1" = .ok decreased := by decide +kernel
  obtain ⟨hreading, hread, -, hcode⟩ := reading_keeps_promises "a-2.5e+1"
  obtain ⟨hnumbers, hformula, hdefinitions⟩ := hreading _ hlex
  have hnumber := hnumbers ⟨.number, "2.5e+1", ⟨2, 1, 3⟩⟩ (by decide) rfl
  have hok : (formula decreased.eof decreased.list).isOk = true := by decide +kernel
  have herror : definitions decreased.eof decreased.list =
      .error ⟨.expected .leftParen .minus "-", ⟨1, 1, 2⟩⟩ := by
    rw [definitions]
    rfl
  have hdefs : readDefinitions "a-2.5e+1" =
      .error (.parse ⟨.expected .leftParen .minus "-", ⟨1, 1, 2⟩⟩) := by
    rw [readDefinitions, tokens, hlex]
    change (definitions decreased.eof decreased.list).mapError _ = _
    rw [herror]
    rfl
  refine ⟨hlex, hnumber, hread _ hnumber, ?_, herror ▸ hdefinitions, _, hdefs,
    hcode _ (.inr hdefs)⟩
  cases hf : formula decreased.eof decreased.list with
  | error e =>
    rw [hf] at hok
    cases hok
  | ok e => exact ⟨e, hf ▸ hformula⟩

end FormulaShell.Formula
