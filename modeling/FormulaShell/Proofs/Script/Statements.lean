import FormulaShell.Proofs.Script.Splitting

namespace FormulaShell.Script

open FormulaShell.Text FormulaShell.Formula

def joined (ls : List (List Char)) : List Char := ls.flatMap (· ++ ['\n'])

theorem joined_lines (cs : List Char) : joined (lines cs) = cs ∨ joined (lines cs) = cs ++ ['\n'] := by
  induction cs with
  | nil => exact .inl rfl
  | cons c cs ih =>
    by_cases hc : c = '\n'
    · subst hc
      simpa [lines, joined] using ih
    · rw [lines, if_neg hc]
      cases hl : lines cs with
      | nil =>
        rw [hl] at ih
        obtain rfl | h := ih
        · exact .inr rfl
        · simp [joined] at h
      | cons l ls => simpa [hl, joined] using ih

theorem scriptLines_eq {source : String} (h : '\r' ∉ source.toList) :
    scriptLines source = lines source.toList := by
  have hmem : ∀ l ∈ lines source.toList, '\r' ∉ l := by
    intro l hl hr
    have hj : '\r' ∈ joined (lines source.toList) :=
      List.mem_flatMap.mpr ⟨l, hl, List.mem_append_left _ hr⟩
    obtain he | he := joined_lines source.toList
    · exact h (he ▸ hj)
    · rw [he] at hj
      simp [h] at hj
  refine (List.map_congr_left fun l hl => ?_).trans (List.map_id _)
  have hr : (l.reverse.dropWhile (· == '\r')) = l.reverse := by
    cases hrev : l.reverse with
    | nil => rfl
    | cons c cs =>
      have hc : c ≠ '\r' := by
        rintro rfl
        exact hmem l hl (by rw [← List.mem_reverse, hrev]; exact List.mem_cons_self)
      simp [hc]
  rw [hr, List.reverse_reverse]
  rfl

/-- The statements lex, and their tokens together are the given ones, wherever they stand. -/
def Tokenized (statements : List (List Char)) (contents : List (TokenKind × String)) : Prop :=
  ∃ tss : List Tokens, statements.map (fun s => lex (String.ofList s)) = tss.map .ok ∧
    (tss.flatMap fun ts => ts.list.map Token.content) = contents

theorem Tokenized.append {xs ys : List (List Char)} {cs ds : List (TokenKind × String)}
    (hx : Tokenized xs cs) (hy : Tokenized ys ds) : Tokenized (xs ++ ys) (cs ++ ds) := by
  obtain ⟨tss, hl, rfl⟩ := hx
  obtain ⟨uss, hl', rfl⟩ := hy
  exact ⟨tss ++ uss, by rw [List.map_append, hl, hl', List.map_append], List.flatMap_append⟩

namespace Accumulator

variable {a : Accumulator} {p q : Position} {ts : List Token}

def Scanned (a : Accumulator) : Prop := a.state = scan a.text

theorem scanned_empty : Scanned empty := rfl

theorem Scanned.add (h : a.Scanned) (line : List Char) : (a.add line).Scanned := by
  change a.state.run (line ++ ['\n']) = scan (a.text ++ line ++ ['\n'])
  rw [h, List.append_assoc, scan, scan, ← Scan.run_append]

theorem Scanned.tokenized (h : a.Scanned) (hl : Lexes p a.text ts q []) :
    Tokenized a.finish?.toList (ts.map Token.content) := by
  obtain ⟨ts', q', hl', hts⟩ := hl.shift .start
  obtain ⟨used, hu, -, -, huseful⟩ := run_of_lexes hl' [] (between_start _) rfl
  rw [List.append_nil] at hu
  subst hu
  rw [← hts]
  by_cases hz : a.state.useful = 0
  · have hnil : ts' = [] := by
      cases ts' with
      | nil => rfl
      | cons t ts' =>
        have hpos := useful_spelling_pos hl' [] rfl t List.mem_cons_self
        rw [h, scan, huseful, List.flatMap_cons, usefulIn_append] at hz
        omega
    rw [finish?, if_pos hz, hnil]
    exact ⟨[], rfl, rfl⟩
  · have hlex : lex (String.ofList a.text) = .ok ⟨ts', q'⟩ :=
      lex_of_lexes (by rw [String.toList_ofList]; exact hl')
    rw [finish?, if_neg hz]
    exact ⟨[⟨ts', q'⟩], by simp [hlex], by simp⟩

/-- No line ends a statement inside quotes or a block comment. -/
def endsInCode (a : Accumulator) : List (List Char) → Bool
  | [] => true
  | line :: rest =>
    (a.goesOn line || (a.add line).state.region == .code) && endsInCode (a.feed line).1 rest

/-- From any line on, the statements have the tokens of all lines to come, and of those before that
are not yet in a statement. -/
theorem Scanned.tokenized_statementsFrom (h : a.Scanned) {ls : List (List Char)}
    (hl : Lexes p (a.text ++ joined ls) ts q []) (he : a.endsInCode ls) :
    Tokenized (statementsFrom a ls) (ts.map Token.content) := by
  induction ls generalizing a p q ts with
  | nil => exact h.tokenized (by simpa [joined] using hl)
  | cons line ls ih =>
    have htext : a.text ++ joined (line :: ls) = (a.add line).text ++ joined ls := by
      simp [joined, Accumulator.add]
    rw [htext] at hl
    rw [endsInCode, Bool.and_eq_true, Bool.or_eq_true, beq_iff_eq] at he
    obtain ⟨hline, hrest⟩ := he
    by_cases hgo : a.goesOn line
    · rw [feed, if_pos hgo] at hrest
      rw [statementsFrom, feed, if_pos hgo]
      exact ih (h.add line) hl hrest
    · rw [feed, if_neg hgo] at hrest
      rw [statementsFrom, feed, if_neg hgo]
      have hcode : (Scan.start.run (a.add line).text).region = .code := by
        rw [← scan, ← h.add line]
        exact hline.resolve_left hgo
      obtain ⟨ts₁, ts₂, m, rfl, h₁, h₂⟩ :=
        lexes_split hl rfl (.inr ⟨a.text ++ line, rfl⟩) (between_start _) hcode
      rw [List.map_append]
      exact ((h.add line).tokenized h₁).append (ih scanned_empty h₂ hrest)

end Accumulator

def given (reads : List Reading) : List (List Char) :=
  reads.filterMap fun r => r.result.toOption.join

theorem readOn_ok (a : Accumulator) (ls : List (List Char)) :
    (statementsFrom a ls = [] ∧ (readOn a (ls.map .ok)).result = .ok none) ∨
      ∃ s rest, statementsFrom a ls = s :: statements rest ∧
        (readOn a (ls.map .ok)).result = .ok (some s) ∧
        (readOn a (ls.map .ok)).rest = rest.map .ok := by
  induction ls generalizing a with
  | nil =>
    cases hf : a.finish? with
    | none => exact .inl ⟨by simp [statementsFrom, hf], by simp [readOn, hf]⟩
    | some s => exact .inr ⟨s, [], by simp [statementsFrom, hf, statements]; rfl, by simp [readOn, hf], rfl⟩
  | cons line ls ih =>
    by_cases hgo : a.goesOn line
    · simpa [statementsFrom, readOn, Accumulator.feed, hgo] using ih (a.add line)
    · cases hf : (a.add line).finish? with
      | none => simpa [statementsFrom, readOn, Accumulator.feed, hgo, hf] using ih .empty
      | some s =>
        refine .inr ⟨s, ls, ?_, ?_, ?_⟩ <;>
          simp [statementsFrom, readOn, Accumulator.feed, hgo, hf, statements]

theorem given_readAll (ls : List (List Char)) : given (readAll (ls.map .ok)) = statements ls := by
  induction hn : ls.length using Nat.strongRecOn generalizing ls with
  | _ n ih =>
    subst hn
    obtain ⟨hs, hr⟩ | ⟨s, rest, hs, hr, hrest⟩ := readOn_ok .empty ls
    · rw [readAll]
      split
      next h => simp [readStatement, hr] at h
      next => simp [given, readStatement, hr, statements, hs, Except.toOption]
    · have hlt := @length_rest_lt (ls.map .ok) s hr
      rw [readStatement, hrest, List.length_map, List.length_map] at hlt
      rw [readAll]
      split
      next =>
        rw [readStatement, hrest, given, List.filterMap_cons, hr, statements, hs, ← ih _ hlt _ rfl]
        rfl
      next h => exact absurd hr (h s)

/-- Reading a script statement by statement neither adds nor loses a token, unless a line ends a
statement inside quotes or a block comment. -/
theorem given_tokens_of_endsInCode (source : String) (ts : Tokens) (h : lex source = .ok ts)
    (hr : '\r' ∉ source.toList) (he : Accumulator.empty.endsInCode (scriptLines source)) :
    ∃ tss : List Tokens,
      (given (readAll ((scriptLines source).map .ok))).map (fun s => lex (String.ofList s)) =
        tss.map .ok ∧
      (tss.flatMap fun ts => ts.list.map Token.content) = ts.list.map Token.content := by
  have hl : Lexes .start source.toList ts.list ts.stop [] := lexes_of_lexFrom (lexFrom_of_lex h)
  obtain ⟨q, hj⟩ : ∃ q, Lexes .start (joined (scriptLines source)) ts.list q [] := by
    rw [scriptLines_eq hr]
    obtain hj | hj := joined_lines source.toList
    · exact ⟨ts.stop, by rwa [hj]⟩
    · rw [hj]
      exact hl.append_break
  rw [given_readAll]
  exact Accumulator.scanned_empty.tokenized_statementsFrom hj he

def longScript : String :=
  "/* price */ f(x: Number): Number =\nx * 2 // twice\nf([1, /* two\nlines */ \"a\nb\"])\n\n" ++
    "[1, 2\n \n] & \x7ba: 'b c'"

theorem longScript_tokens : (statements (scriptLines longScript)).length = 4 ∧
    ∃ ts, lex longScript = .ok ts ∧
    ∃ tss : List Tokens,
      (given (readAll ((scriptLines longScript).map .ok))).map (fun s => lex (String.ofList s)) =
        tss.map .ok ∧
      (tss.flatMap fun ts => ts.list.map Token.content) = ts.list.map Token.content := by
  refine ⟨by decide +kernel, ?_⟩
  cases h : lex longScript with
  | error e =>
    have hok : (lex longScript).isOk := by decide +kernel
    rw [h] at hok
    cases hok
  | ok ts =>
    exact ⟨ts, rfl, given_tokens_of_endsInCode longScript ts h (by decide +kernel)
      (by decide +kernel)⟩

-- A line that is in a block comment becomes a statement if the line before ends one there.
example : statements (scriptLines "/* a\n2 */") = ["2 */\n".toList] := by decide +kernel

end FormulaShell.Script
