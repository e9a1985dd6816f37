import FormulaShell.Proofs.Script.Tails

namespace FormulaShell.Script

open FormulaShell.Text FormulaShell.Formula

/-- The same variant and name, and the same tokens in the text that the statement takes along. -/
def Statement.Alike : Statement → Statement → Prop
  | .assignment name e, .assignment name' e' => name = name' ∧ contents? e = contents? e'
  | .namedFormula name f, .namedFormula name' f' => name = name' ∧ contents? f = contents? f'
  | .functionDefinition s, .functionDefinition s' => contents? s = contents? s'
  | .evaluation e, .evaluation e' => contents? e = contents? e'
  | .empty, .empty => True
  | _, _ => False

def Statement.isAssignment : Statement → Bool
  | .assignment .. => true
  | _ => false

/-- The text begins as an assignment does, up to the comma after the name. -/
def OpensAssignment (cs : List Char) : Prop := (assignmentHead? (trim cs)).isSome

def EndsInClose (cs : List Char) : Prop := (trimEnd cs).getLast? = some ')'

instance (cs : List Char) : Decidable (OpensAssignment cs) :=
  inferInstanceAs (Decidable ((assignmentHead? (trim cs)).isSome = true))

instance (cs : List Char) : Decidable (EndsInClose cs) :=
  inferInstanceAs (Decidable ((trimEnd cs).getLast? = some ')'))

theorem Statement.Alike.isAssignment_eq {s t : Statement} (h : s.Alike t) :
    s.isAssignment = t.isAssignment := by
  cases s <;> cases t <;> first | rfl | exact h.elim

def otherwise (cs : List Char) : Statement :=
  match namedFormula? cs with
  | some (name, f) => .namedFormula (String.ofList name) (String.ofList f)
  | none =>
    if isDefinition cs then .functionDefinition (String.ofList cs)
    else .evaluation (String.ofList cs)

theorem isAssignment_otherwise (cs : List Char) : (otherwise cs).isAssignment = false := by
  unfold otherwise
  split
  · rfl
  · split <;> rfl

theorem classify_of_useful {s : List Char} (h : (scan (trim s)).useful ≠ 0) :
    classify s = match assignment? (trim s) with
      | some (name, e) => .assignment (String.ofList name) (String.ofList e)
      | none => otherwise (trim s) := by
  rw [classify, if_neg h]
  rfl

section

variable {s k : List Char}

theorem exists_trim_append_comment (h : trimStart s ≠ []) (hk : IsComment k) :
    ∃ after, Blanks after ∧ trimStart s = trim s ++ after ∧
      trim (s ++ ' ' :: k) = trim s ++ (after ++ ' ' :: trimEnd k) := by
  obtain ⟨after, hafter, hs⟩ := exists_trimEnd (trimStart s)
  refine ⟨after, hafter, hs, ?_⟩
  obtain ⟨rest, hrest⟩ := hk.trimEnd.exists_cons
  have hend : trimEnd (' ' :: k) = ' ' :: trimEnd k :=
    trimEnd_append (by simp [hrest]) [' ']
  rw [trim, trimStart_append h, trimEnd_append (by simp [hend]), hend, ← List.append_assoc]
  exact congrArg (· ++ ' ' :: trimEnd k) hs

theorem isTail_comment {after : List Char} (ha : Blanks after) (hk : IsComment k) :
    IsTail (after ++ ' ' :: trimEnd k) := by
  obtain ⟨rest, hrest⟩ := hk.trimEnd.exists_cons
  refine ⟨rest, ?_⟩
  rw [trimStart_append_of_nil (List.dropWhile_eq_nil_iff.mpr ha), hrest]
  rfl

theorem contentsOf_commented (hs : (scan s).region = .code) (hk : IsComment k) :
    contentsOf (trim (s ++ ' ' :: k)) = contentsOf (trim s) := by
  rw [contentsOf_trim, contentsOf_trim, contentsOf_append_comment hk (between_start s) hs]

theorem contentsOf_formula_commented (hs : (scan s).region = .code) (h : trimStart s ≠ [])
    (hk : IsComment k) {after : List Char} (ha : Blanks after)
    (hafter : trimStart s = trim s ++ after) {p : List Char × List Char}
    (hhead : formulaHead? (trim s) = some p) :
    contentsOf (trim (p.2 ++ (after ++ ' ' :: trimEnd k))) = contentsOf (trim p.2) := by
  obtain ⟨pre, hpre, htrim⟩ := exists_formulaHead? hhead
  have hcode : ((Scan.start.run pre).run (p.2 ++ after)).region = .code := by
    rw [← hs, ← scan_trimStart h, hafter, htrim, scan, ← Scan.run_append, List.append_assoc]
  rw [contentsOf_trim, contentsOf_trim, ← List.append_assoc,
    contentsOf_append_comment hk.trimEnd (hpre.between _) hcode,
    contentsOf_append_blanks ha]

theorem alike_otherwise (hs : (scan s).region = .code) (h : trimStart s ≠ []) (hk : IsComment k) :
    (otherwise (trim s)).Alike (otherwise (trim (s ++ ' ' :: k))) := by
  have hwhole := contentsOf_commented hs hk
  obtain ⟨after, ha, hafter, htrim⟩ := exists_trim_append_comment h hk
  have hx := isTail_comment ha hk
  have htail : Tailed _ (trim s) (trim (s ++ ' ' :: k)) := .inl htrim
  have hhead := htail.formulaHead? hx
  have hformula : ∀ p, formulaHead? (trim s) = some p →
      contentsOf (trim (p.2 ++ (after ++ ' ' :: trimEnd k))) = contentsOf (trim p.2) :=
    fun p => contentsOf_formula_commented hs h hk ha hafter
  rw [otherwise, otherwise, namedFormula?_eq, namedFormula?_eq, htail.isDefinition hx]
  generalize formulaHead? (trim s) = u at hhead hformula ⊢
  generalize formulaHead? (trim (s ++ ' ' :: k)) = v at hhead ⊢
  cases hhead with
  | none =>
    dsimp only [Option.map_none]
    split <;> simp [Statement.Alike, contents?_ofList, hwhole]
  | @some p q hp =>
    subst hp
    dsimp only [Option.map_some]
    exact ⟨rfl, by rw [contents?_ofList, contents?_ofList, hformula p rfl]⟩

theorem useful_scan_commented (hs : (scan s).region = .code) (hk : IsComment k) :
    (scan (trim (s ++ ' ' :: k))).useful = (scan (trim s)).useful := by
  rw [useful_scan_trim, useful_scan_append_comment hs hk, useful_scan_trim]

theorem trimStart_ne_nil (h : (scan (trim s)).useful ≠ 0) : trimStart s ≠ [] := by
  intro hnil
  rw [trim, hnil] at h
  exact h rfl

theorem getLast?_tail {after : List Char} (hk : IsComment k) :
    (after ++ ' ' :: trimEnd k).getLast? = (trimEnd k).getLast? := by
  obtain ⟨rest, hrest⟩ := hk.trimEnd.exists_cons
  rw [← List.singleton_append, ← List.append_assoc,
    List.getLast?_append_of_ne_nil _ (by simp [hrest])]

theorem assignment?_commented (h : trimStart s ≠ []) (hk : IsComment k)
    (hend : ¬ (OpensAssignment s ∧ EndsInClose k)) : assignment? (trim (s ++ ' ' :: k)) = none := by
  obtain ⟨after, ha, -, htrim⟩ := exists_trim_append_comment h hk
  have htail : Tailed _ (trim s) (trim (s ++ ' ' :: k)) := .inl htrim
  have hhead := htail.assignmentHead? (isTail_comment ha hk)
  rw [OpensAssignment] at hend
  rw [assignment?_eq]
  generalize assignmentHead? (trim s) = u at hhead hend
  generalize assignmentHead? (trim (s ++ ' ' :: k)) = v at hhead ⊢
  cases hhead with
  | none => rfl
  | some hp =>
    subst hp
    have hlast : (after ++ ' ' :: trimEnd k).getLast? ≠ some ')' := by
      rw [getLast?_tail hk]
      exact fun he => hend ⟨rfl, he⟩
    rw [Option.bind_some, beforeClose?_append_of_getLast? (by simp) hlast]
    rfl

theorem alike_commented_iff (hs : (scan s).region = .code) (hk : IsComment k)
    (hend : ¬ (OpensAssignment s ∧ EndsInClose k)) :
    (classify s).Alike (classify (s ++ ' ' :: k)) ↔ (classify s).isAssignment = false := by
  have huseful := useful_scan_commented hs hk
  by_cases hz : (scan (trim s)).useful = 0
  · rw [classify, classify, if_pos hz, if_pos (huseful.trans hz)]
    exact iff_of_true trivial rfl
  · have hne := trimStart_ne_nil hz
    rw [classify_of_useful hz, classify_of_useful (huseful ▸ hz), assignment?_commented hne hk hend]
    cases assignment? (trim s) with
    | none => exact iff_of_true (alike_otherwise hs hne hk) (isAssignment_otherwise _)
    | some p =>
      refine iff_of_false (fun halike => ?_) nofun
      have hsame := halike.isAssignment_eq
      rw [isAssignment_otherwise] at hsame
      cases hsame

theorem classify_slash (cs : List Char) : classify ('/' :: cs) =
    if (scan (trim ('/' :: cs))).useful = 0 then .empty
    else .evaluation (String.ofList (trim ('/' :: cs))) := by
  obtain ⟨rest, hrest⟩ : ∃ rest, trim ('/' :: cs) = '/' :: rest :=
    ⟨trimEnd cs, trimEnd_cons (by decide) cs⟩
  have hslash : isWordChar '/' = false := by decide +kernel
  have hword : word? ('/' :: rest) = none := word?_of_head? fun c hc => by cases hc; exact hslash
  have hassignment : assignment? ('/' :: rest) = none := rfl
  have hformula : namedFormula? ('/' :: rest) = none := by simp [namedFormula?, hword]
  have hdefinition : isDefinition ('/' :: rest) = false := by simp [isDefinition, afterWord?, hword]
  rw [classify, hrest, hassignment, hformula, hdefinition]
  rfl

theorem alike_after_comment_iff (hk : IsBlockComment k) :
    (classify s).Alike (classify (k ++ ' ' :: s)) ↔
      classify s = .empty ∨ ∃ e, classify s = .evaluation e := by
  have huseful : (scan (trim (k ++ ' ' :: s))).useful = (scan (trim s)).useful := by
    rw [useful_scan_trim, useful_scan_comment_append hk, useful_scan_trim]
  have hcontents : contentsOf (trim (k ++ ' ' :: s)) = contentsOf (trim s) := by
    rw [contentsOf_trim, contentsOf_trim, contentsOf_trivia (hk.reads _),
      contentsOf_blank (by decide)]
  obtain ⟨rest, hrest⟩ := IsComment.exists_cons (.inl hk)
  rw [hrest, List.cons_append] at huseful hcontents
  rw [hrest, List.cons_append, classify_slash]
  by_cases hz : (scan (trim s)).useful = 0
  · rw [classify, if_pos hz, if_pos (huseful.trans hz)]
    exact iff_of_true trivial (.inl rfl)
  · rw [classify_of_useful hz, if_neg (huseful ▸ hz)]
    split
    · exact iff_of_false id (by simp)
    · unfold otherwise
      split
      · exact iff_of_false id (by simp)
      · split
        · exact iff_of_false id (by simp)
        · refine iff_of_true ?_ (.inr ⟨_, rfl⟩)
          rw [Statement.Alike, contents?_ofList, contents?_ofList, hcontents]

theorem exists_of_endsInClose (hk : IsComment k) (h : EndsInClose k) :
    ∃ front, IsLineComment front ∧ trimEnd k = front ++ [')'] := by
  obtain ⟨front, hfront⟩ : ∃ front, trimEnd k = front ++ [')'] := List.getLast?_eq_some_iff.mp h
  refine ⟨front, ?_, hfront⟩
  obtain hblock | ⟨body, hbody, hn⟩ := hk.trimEnd
  · obtain ⟨before, hslash⟩ := hblock.exists_concat
    rw [hslash] at hfront
    simpa using (List.append_inj' hfront rfl).2
  · rw [hbody] at hfront
    match front, hfront with
    | [c], he => simp at he
    | c :: d :: front, he =>
      simp only [List.cons_append, List.cons.injEq] at he
      obtain ⟨rfl, rfl, rfl⟩ := he
      exact ⟨front, rfl, fun hm => hn (List.mem_append_left _ hm)⟩

theorem contentsOf_reopened {t : Scan} {expression after front : List Char}
    (ht : ∀ rest, t.Between rest) (ha : Blanks after) (hf : IsLineComment front)
    (hclose : (t.run (expression ++ [')'])).region = .code)
    (hafter : (t.run (expression ++ ')' :: after)).region = .code) :
    contentsOf (expression ++ ')' :: after ++ ' ' :: front) =
      (contentsOf expression).map (· ++ [(.rightParen, ")")]) := by
  have hexpression : (t.run expression).region = .code := by
    rw [Scan.run_append] at hclose
    exact code_of_close hclose
  have hend : contentsOf [')'] = some [(.rightParen, ")")] := by decide +kernel
  rw [contentsOf_append_comment (.inr hf) (ht _) hafter, ← List.singleton_append,
    ← List.append_assoc, contentsOf_append_blanks ha,
    contentsOf_append_stop (by decide) (ht _) (.inl hexpression), hend]
  cases contentsOf expression <;> rfl

theorem useful_of_assignmentHead? {name e : List Char}
    (h : assignmentHead? (trim s) = some (name, e)) : (scan (trim s)).useful ≠ 0 := by
  obtain ⟨pre, -, htrim⟩ := exists_assignmentHead? h
  have hstart : Marked (Scan.start.step 'S') := ⟨by decide, nofun⟩
  rw [htrim]
  exact (hstart.run _).useful.ne'

theorem classify_of_assignmentHead? {name e : List Char}
    (h : assignmentHead? (trim s) = some (name, e)) :
    classify s = match beforeClose? e with
      | some e => .assignment (String.ofList name) (String.ofList (trim e))
      | none => otherwise (trim s) := by
  rw [classify_of_useful (useful_of_assignmentHead? h), assignment?_eq, h, Option.bind_some]
  cases beforeClose? e <;> rfl

/-- The comment gets into the expression, and so does the parenthesis that has ended it. -/
theorem classify_commented_of_endsInClose (hk : IsComment k) {name e after front : List Char}
    (hhead : assignmentHead? (trim s) = some (name, e)) (ha : Blanks after)
    (htrim : trim (s ++ ' ' :: k) = trim s ++ (after ++ ' ' :: trimEnd k))
    (hfront : trimEnd k = front ++ [')']) :
    classify (s ++ ' ' :: k) =
      .assignment (String.ofList name) (String.ofList (trim (e ++ (after ++ ' ' :: front)))) := by
  have hrel := Tailed.assignmentHead? (isTail_comment ha hk) (.inl htrim)
  rw [hhead] at hrel
  generalize hv : assignmentHead? (trim (s ++ ' ' :: k)) = v at hrel
  cases hrel with
  | some hq =>
    subst hq
    have hclose : beforeClose? (e ++ (after ++ ' ' :: trimEnd k)) =
        some (e ++ (after ++ ' ' :: front)) := by
      rw [beforeClose?_eq_some, hfront]
      simp
    rw [classify_of_assignmentHead? hv, hclose]

theorem not_alike_of_endsInClose (hs : (scan s).region = .code) (hk : IsComment k)
    (hopen : OpensAssignment s) (hend : EndsInClose k) (hcode : (scan (trim s)).region = .code)
    (hlex : ∀ name e, classify s = .assignment name e → contents? e ≠ none) :
    ¬ (classify s).Alike (classify (s ++ ' ' :: k)) := by
  obtain ⟨⟨name, e⟩, hhead⟩ := Option.isSome_iff_exists.mp hopen
  have hne := trimStart_ne_nil (useful_of_assignmentHead? hhead)
  obtain ⟨after, ha, hafter, htrim⟩ := exists_trim_append_comment hne hk
  obtain ⟨front, hf, hfront⟩ := exists_of_endsInClose hk hend
  have hcommented := classify_commented_of_endsInClose hk hhead ha htrim hfront
  have hclassify := classify_of_assignmentHead? hhead
  rw [hcommented]
  cases hb : beforeClose? e with
  | none =>
    intro halike
    have hsame := halike.isAssignment_eq
    rw [hclassify, hb, isAssignment_otherwise] at hsame
    cases hsame
  | some expression =>
    rw [hb] at hclassify
    have hxs := hlex _ _ hclassify
    rw [beforeClose?_eq_some] at hb
    subst hb
    obtain ⟨pre, hpre, htext⟩ := exists_assignmentHead? hhead
    -- The parenthesis that has ended the assignment is a token of its expression now.
    have hreopened := contentsOf_reopened (t := Scan.start.run ('S' :: pre)) hpre.between ha hf
      (by rwa [← Scan.run_append, ← htext])
      (by
        rw [← hs, ← scan_trimStart hne, hafter, htext, scan, ← Scan.run_append]
        simp)
    rw [hclassify]
    rintro ⟨-, hcontents⟩
    rw [contents?_ofList, contentsOf_trim] at hxs
    rw [contents?_ofList, contents?_ofList, contentsOf_trim, contentsOf_trim] at hcontents
    obtain ⟨xs, hxs⟩ := Option.ne_none_iff_exists'.mp hxs
    have hsame : expression ++ [')'] ++ (after ++ ' ' :: front) =
        expression ++ ')' :: after ++ ' ' :: front := by simp
    rw [hsame, hreopened, hxs] at hcontents
    simp at hcontents

end

/-- Exactly when a comment leaves a statement as it is. After the statement only an assignment is
lost, as its closing parenthesis must be the last character of the text, and a comment that ends
in a parenthesis is taken for the end of an assignment. Before the statement no shape is found. -/
theorem classify_commented_alike_iff (s : List Char) (hs : (scan s).region = .code) :
    (∀ k, IsComment k → ¬ (OpensAssignment s ∧ EndsInClose k) →
      ((classify s).Alike (classify (s ++ ' ' :: k)) ↔ (classify s).isAssignment = false)) ∧
    (∀ k, IsComment k → OpensAssignment s ∧ EndsInClose k → (scan (trim s)).region = .code →
      (∀ name e, classify s = .assignment name e → contents? e ≠ none) →
      ¬ (classify s).Alike (classify (s ++ ' ' :: k))) ∧
    ∀ k, IsBlockComment k →
      ((classify s).Alike (classify (k ++ ' ' :: s)) ↔
        classify s = .empty ∨ ∃ e, classify s = .evaluation e) :=
  ⟨fun _ hk hend => alike_commented_iff hs hk hend,
    fun _ hk hend => not_alike_of_endsInClose hs hk hend.1 hend.2,
    fun _ hk => alike_after_comment_iff hk⟩

/-- An assignment is lost with any comment beside it, a named formula only with one before it. -/
theorem classify_commented_set :
    (¬ (classify "Set(x, 1)".toList).Alike
        (classify ("Set(x, 1)".toList ++ ' ' :: "// one".toList)) ∧
      ¬ (classify "Set(x, 1)".toList).Alike
        (classify ("Set(x, 1)".toList ++ ' ' :: "// (one)".toList)) ∧
      ¬ (classify "Set(x, 1)".toList).Alike
        (classify ("/* one */".toList ++ ' ' :: "Set(x, 1)".toList))) ∧
    (classify "f = 2 // two\n".toList).Alike
        (classify ("f = 2 // two\n".toList ++ ' ' :: "// (two)".toList)) ∧
      ¬ (classify "f = 2 // two\n".toList).Alike
        (classify ("/* two */".toList ++ ' ' :: "f = 2 // two\n".toList)) := by
  have hone : IsComment "// one".toList := .inr ⟨" one".toList, rfl, by decide⟩
  have hclosed : IsComment "// (one)".toList := .inr ⟨" (one)".toList, rfl, by decide⟩
  have htwo : IsComment "// (two)".toList := .inr ⟨" (two)".toList, rfl, by decide⟩
  have hbefore : IsBlockComment "/* one */".toList := ⟨" one */".toList, rfl, by decide⟩
  have hbefore' : IsBlockComment "/* two */".toList := ⟨" two */".toList, rfl, by decide⟩
  have hset : classify "Set(x, 1)".toList = .assignment "x" "1" := by decide +kernel
  have hformula : classify "f = 2 // two\n".toList = .namedFormula "f" "2 // two" := by
    decide +kernel
  have hlex : ∀ name e, classify "Set(x, 1)".toList = .assignment name e → contents? e ≠ none := by
    rw [hset]
    rintro _ _ ⟨⟩
    decide +kernel
  obtain ⟨h₁, h₂, h₃⟩ := classify_commented_alike_iff "Set(x, 1)".toList (by decide +kernel)
  obtain ⟨h₄, -, h₅⟩ := classify_commented_alike_iff "f = 2 // two\n".toList (by decide +kernel)
  refine ⟨⟨?_, ?_, ?_⟩, ?_, ?_⟩
  · rw [h₁ _ hone (by decide +kernel), hset]
    decide
  · exact h₂ _ hclosed (by decide +kernel) (by decide +kernel) hlex
  · rw [h₃ _ hbefore, hset]
    simp
  · rw [h₄ _ htwo (by decide +kernel), hformula]
    rfl
  · rw [h₅ _ hbefore', hformula]
    simp

end FormulaShell.Script
