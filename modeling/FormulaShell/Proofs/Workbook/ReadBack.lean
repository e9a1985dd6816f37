import FormulaShell.Proofs.Formula.ParserCompleteness
import FormulaShell.Proofs.Formula.Pieces
import FormulaShell.Proofs.Workbook.Tables

namespace FormulaShell.Workbook

open FormulaShell.Formula FormulaShell.Text

variable {σ : Type} {w : Workbook σ} {name : String} {v : Value} {c : Changed σ}

/-- As a formula, a name that has a value stands for it: the name is no word of the language, or it
is the word for this very value. -/
def StandsFor (name : String) (v : Value) : Prop :=
  wordKind name = .name ∨ name = "true" ∧ v = .boolean true ∨ name = "false" ∧ v = .boolean false

theorem wordKind_cases (s : String) :
    wordKind s = .name ∨ s ∈ ["true", "false", "And", "Or", "Not"] := by
  unfold wordKind
  split_ifs <;> simp [*]

theorem readFormula_word {kind : TokenKind} (hn : isName name) (hk : wordKind name = kind) :
    readFormula name = (formula ⟨.eof, "", Position.start.advanceAll name.toList⟩
      [⟨kind, name, .start⟩]).mapError .parse := by
  have hlex : Lexes .start (name.toList ++ []) [⟨kind, name, .start⟩] _ [] :=
    lexes_word hn hk (by simp)
  rw [List.append_nil] at hlex
  rw [readFormula, tokens, lex_of_lexes hlex]
  rfl

theorem formula_of_atom {eof t : Token} {e : Expr}
    (h : ∀ expr, Gives (atom eof expr [t]) e [])
    (ht : t.kind ∉ [TokenKind.minus, .plus, .negation]) : formula eof [t] = .ok e :=
  formula_of_gives ((((h _).suffixed ends_nil).operand ht).expression ends_nil)

theorem readFormula_name (hn : isName name) (hk : wordKind name = .name) :
    readFormula name = .ok (.name name 0) := by
  rw [readFormula_word hn hk, formula_of_atom (fun _ => gives_name rfl (free_nil _)) (by simp)]
  rfl

theorem readFormula_truth (b : Bool) : readFormula (boolText b) = .ok (.boolean b) := by
  cases b with
  | true =>
    have hword : wordKind "true" = .trueWord := by decide
    rw [boolText, if_pos rfl, readFormula_word (by decide +kernel) hword,
      formula_of_atom (fun _ => gives_true rfl) (by simp)]
    rfl
  | false =>
    have hword : wordKind "false" = .falseWord := by decide
    rw [boolText, if_neg (by simp), readFormula_word (by decide +kernel) hword,
      formula_of_atom (fun _ => gives_false rfl) (by simp)]
    rfl

theorem evaluate_of_yields {source : String} {e : Expr} (hread : readFormula source = .ok e)
    (hcheck : check (w.scope .empty) true e = .ok ())
    (heval : ∀ enter : Enter σ, Yields (eval (w.environment .empty .never) enter [] e) v)
    (world : σ) : (w.evaluate source .empty .never world).1 = .ok v := by
  have hrun : Yields (do
      pause (w.environment .empty .never)
      evalAt (w.environment .empty .never) maxCallDepth [] e) v :=
    (yields_pause rfl).bind (heval _)
  have hvalue : (Formula.evaluate (w.environment .empty .never) e world).1 = .ok v :=
    hrun ⟨0, world⟩
  rw [evaluate_of_reads hread hcheck, hvalue]
  rfl

theorem evaluate_name (hn : isName name) (hk : wordKind name = .name)
    (hv : w.values.get? name = some v) (world : σ) :
    (w.evaluate name .empty .never world).1 = .ok v := by
  refine evaluate_of_yields (readFormula_name hn hk) ?_ (fun enter => ?_) world
  · refine check_name_ok.mpr fun _ => ?_
    simp [scope, Fields.contains, hv]
  · have hlookup : lookup (w.environment .empty .never) [] name = v := by
      change (w.values.get? name).getD _ = v
      rw [hv]
      rfl
    rw [eval, hlookup]
    exact (yields_visit rfl).bind (yields_pure v)

theorem evaluate_truth (b : Bool) (world : σ) :
    (w.evaluate (boolText b) .empty .never world).1 = .ok (.boolean b) := by
  refine evaluate_of_yields (readFormula_truth b) rfl (fun enter => ?_) world
  rw [eval]
  exact (yields_visit rfl).bind (yields_pure _)

theorem evaluate_operator (h : name ∈ ["And", "Or", "Not"]) (world : σ) :
    (w.evaluate name .empty .never world).1 ≠ .ok v := by
  have hread : (readFormula name).isOk = false := by
    revert name
    decide +kernel
  cases hr : readFormula name with
  | ok e =>
    rw [hr] at hread
    cases hread
  | error e =>
    have hprepare : w.prepare name .empty = .error (.unreadable e) := by
      rw [prepare, hr]
      rfl
    rw [evaluate, hprepare]
    intro h
    cases h

theorem evaluate_iff_standsFor (hn : isName name) (hv : w.values.get? name = some v) (world : σ) :
    (w.evaluate name .empty .never world).1 = .ok v ↔ StandsFor name v := by
  obtain hk | hword := wordKind_cases name
  · exact iff_of_true (evaluate_name hn hk hv world) (.inl hk)
  · simp only [List.mem_cons, List.not_mem_nil, or_false] at hword
    obtain rfl | rfl | hop := hword
    · have htrue := evaluate_truth (w := w) true world
      rw [show boolText true = "true" from rfl] at htrue
      rw [htrue, Except.ok.injEq, StandsFor]
      simp [wordKind, eq_comm]
    · have hfalse := evaluate_truth (w := w) false world
      rw [show boolText false = "false" from rfl] at hfalse
      rw [hfalse, Except.ok.injEq, StandsFor]
      simp [wordKind, eq_comm]
    · refine iff_of_false (evaluate_operator (by simpa using hop) world) ?_
      obtain rfl | rfl | rfl := hop <;> simp [StandsFor, wordKind]

theorem Coherent.get?_of_update (h : Coherent w) {world : σ}
    (hc : (w.update name v world).1 = .ok c) : c.workbook.values.get? name = some v := by
  obtain ⟨-, lock, hl, rfl⟩ := update_ok hc
  have hnew : name ∉ w.formulas.map (·.name) := fun hm =>
    lockFor_ne_formula hl ((h.formulas name).mpr hm)
  rw [get?_recalculate hnew]
  exact Fields.get?_insert_self

theorem get?_of_define {source : String} {world : σ}
    (hc : (w.define name source world).1 = .ok c) :
    ∃ v, c.events = [⟨name, v⟩] ∧ c.workbook.values.get? name = some v := by
  obtain ⟨-, -, e, v, -, -, rfl⟩ := define_ok hc
  exact ⟨v, rfl, Fields.get?_insert_self⟩

/-- After any operations, a name to which a value has just been given, by an assignment or as the
first value of a formula, evaluates to this value exactly if it stands for it. -/
theorem read_back_iff (world now later : σ) (ops : List (Operation σ)) (name : String)
    (c : Changed σ) :
    (∀ v, (((Desk.start world).operateAll ops).workbook.update name v now).1 = .ok c →
      ((c.workbook.evaluate name .empty .never later).1 = .ok v ↔ StandsFor name v)) ∧
    (∀ source, (((Desk.start world).operateAll ops).workbook.define name source now).1 = .ok c →
      ∃ v, c.events = [⟨name, v⟩] ∧
        ((c.workbook.evaluate name .empty .never later).1 = .ok v ↔ StandsFor name v)) := by
  have hcoherent := (Coherent.operateAll (d := Desk.start world) coherent_empty ops).1
  refine ⟨fun v hc => ?_, fun source hc => ?_⟩
  · exact evaluate_iff_standsFor (update_ok hc).1 (hcoherent.get?_of_update hc) later
  · obtain ⟨v, hevents, hv⟩ := get?_of_define hc
    exact ⟨v, hevents, evaluate_iff_standsFor (define_ok hc).1 hv later⟩

def lengthsRun : List (Operation Unit) :=
  [.host "Double" ⟨.exactly 1, fun vs world => (vs.headD .blank, world)⟩,
    .request (.define "Längen" "ForAll([1, 2], größe * Double(Value))"),
    .request (.update "größe" (.number 2.0))]

theorem lengthsRun_read_back :
    (∃ c, (((Desk.start ()).operateAll lengthsRun).workbook.update "größe" (.number 3.0) ()).1 =
        .ok c ∧ c.events.length = 1 ∧
      (c.workbook.evaluate "größe" .empty .never ()).1 = .ok (.number 3.0)) ∧
    ∃ c v, (((Desk.start ()).operateAll lengthsRun).workbook.define "_Fläche2" "größe ^ 2" ()).1 =
        .ok c ∧ c.events = [⟨"_Fläche2", v⟩] ∧
      (c.workbook.evaluate "_Fläche2" .empty .never ()).1 = .ok v := by
  constructor
  · obtain ⟨c, hc⟩ := exists_ok_of_isOk
      (x := (((Desk.start ()).operateAll lengthsRun).workbook.update "größe" (.number 3.0) ()).1)
      (by decide +kernel)
    have hlength : ((((Desk.start ()).operateAll lengthsRun).workbook.update "größe"
      (.number 3.0) ()).1.toOption.map (·.events.length)) = some 1 := by decide +kernel
    rw [hc] at hlength
    have hread := (read_back_iff () () () lengthsRun "größe" c).1 _ hc
    exact ⟨c, hc, Option.some.inj hlength, hread.mpr (.inl (by decide))⟩
  · obtain ⟨c, hc⟩ := exists_ok_of_isOk
      (x := (((Desk.start ()).operateAll lengthsRun).workbook.define "_Fläche2" "größe ^ 2" ()).1)
      (by decide +kernel)
    obtain ⟨v, hevents, hread⟩ := (read_back_iff () () () lengthsRun "_Fläche2" c).2 _ hc
    exact ⟨c, v, hc, hevents, hread.mpr (.inl (by decide))⟩

/-- A variable may have the name `true`, and the formula `true` does not read it. -/
theorem true_not_read_back :
    ∃ c, ((empty : Workbook Unit).update "true" (.number 5.0) ()).1 = .ok c ∧
      (c.workbook.evaluate "true" .empty .never ()).1 = .ok (.boolean true) := by
  obtain ⟨c, hc⟩ := exists_ok_of_isOk
    (x := ((empty : Workbook Unit).update "true" (.number 5.0) ()).1) (by decide +kernel)
  exact ⟨c, hc, evaluate_truth true ()⟩

end FormulaShell.Workbook
