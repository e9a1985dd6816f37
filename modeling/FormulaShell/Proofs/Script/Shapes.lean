import FormulaShell.Proofs.Script.Comments
import FormulaShell.Script.Statement
import Mathlib.Data.List.Basic

namespace FormulaShell.Script

open FormulaShell.Text

theorem after?_eq_some {c : Char} {cs rest : List Char} :
    after? c cs = some rest ↔ cs = c :: rest := by
  cases cs with
  | nil => simp [after?]
  | cons d cs =>
    by_cases h : d = c <;> simp [after?, h]

theorem word?_eq (cs : List Char) : word? cs =
    if cs.takeWhile isWordChar = [] then none
    else some (cs.takeWhile isWordChar, cs.dropWhile isWordChar) := by
  rw [word?]
  split
  next h => rw [if_pos h]
  next h => rw [if_neg h]

theorem word?_of_head? {cs : List Char} (h : ∀ c ∈ cs.head?, isWordChar c = false) :
    word? cs = none := by
  cases cs with
  | nil => rfl
  | cons c cs => rw [word?_eq, List.takeWhile_cons_of_neg (by simp [h c rfl]), if_pos rfl]

def assignmentHead? (cs : List Char) : Option (List Char × List Char) := do
  let rest ← after? 't' (← after? 'e' (← after? 'S' cs))
  let inside ← after? '(' (trimStart rest)
  let (name, rest) ← word? (trimStart inside)
  let expression ← after? ',' (trimStart rest)
  some (name, expression)

theorem assignment?_eq (cs : List Char) : assignment? cs =
    (assignmentHead? cs).bind fun p => (beforeClose? p.2).map fun e => (p.1, trim e) := by
  unfold assignment?
  split
  next rest =>
    simp [assignmentHead?, after?, Option.bind_assoc]
  next hno =>
    cases h : assignmentHead? cs with
    | none => rfl
    | some p =>
      simp only [assignmentHead?, Option.bind_eq_bind, Option.bind_eq_some_iff, after?_eq_some] at h
      obtain ⟨_, rfl, _, rfl, rest, rfl, -⟩ := h
      exact absurd rfl (hno rest)

def formulaHead? (cs : List Char) : Option (List Char × List Char) := do
  let (name, rest) ← word? cs
  let formula ← after? '=' (trimStart rest)
  if (after? '=' formula).isSome then none else some (name, formula)

theorem namedFormula?_eq (cs : List Char) :
    namedFormula? cs = (formulaHead? cs).map fun p => (p.1, trim p.2) := by
  rw [namedFormula?, formulaHead?]
  cases word? cs with
  | none => rfl
  | some p =>
    dsimp
    cases after? '=' (trimStart p.2) with
    | none => rfl
    | some formula =>
      dsimp
      split <;> rfl

theorem afterParams?_eq (cs : List Char) : afterParams? cs =
    (after? ')' (trimStart cs)).orElse fun _ => (afterParam? (trimStart cs)).bind afterParams? := by
  rw [afterParams?]
  cases after? ')' (trimStart cs) with
  | some rest => rfl
  | none =>
    dsimp only
    split
    next h => rw [h]; rfl
    next h => rw [h]; rfl

def afterResult? (cs : List Char) : Option (List Char) := do
  let params ← after? '(' (← afterWord? cs)
  let result ← after? ':' (trimStart (← afterParams? params))
  afterWord? (trimStart result)

theorem isDefinition_eq (cs : List Char) :
    isDefinition cs =
      (afterResult? cs).any fun rest => rest.head?.any fun c => c == '=' || c == '{' := by
  unfold isDefinition
  dsimp only
  split
  next rest h =>
    have hr : afterResult? cs = some ('=' :: rest) := h
    rw [hr]
    rfl
  next rest h =>
    have hr : afterResult? cs = some ('{' :: rest) := h
    rw [hr]
    rfl
  next hequals hbrace =>
    cases hr : afterResult? cs with
    | none => rfl
    | some rest =>
      cases rest with
      | nil => rfl
      | cons c rest =>
        have hc : c ≠ '=' := by
          rintro rfl
          exact hequals rest hr
        have hc' : c ≠ '{' := by
          rintro rfl
          exact hbrace rest hr
        simp [hc, hc']

theorem exists_word? {cs name rest : List Char} (h : word? cs = some (name, rest)) :
    (∀ c ∈ name, isWordChar c) ∧ cs = name ++ rest := by
  rw [word?_eq] at h
  split at h
  · cases h
  · obtain ⟨rfl, rfl⟩ : _ = name ∧ _ = rest := by simpa using h
    exact ⟨fun _ hc => List.mem_takeWhile_imp hc, List.takeWhile_append_dropWhile.symm⟩

theorem exists_plain_word? {cs name rest : List Char}
    (h : word? (trimStart cs) = some (name, rest)) : ∃ pre, Plain pre ∧ cs = pre ++ rest := by
  obtain ⟨hname, hcs⟩ := exists_word? h
  obtain ⟨ws, hw, hblank⟩ := exists_trimStart cs
  refine ⟨ws ++ name, (plain_blanks hw).append
    (plain_of_isOrdinary fun c hc => isOrdinary_of_isWordChar (hname c hc)), ?_⟩
  rw [List.append_assoc, ← hcs, ← hblank]

theorem exists_plain_after? {c : Char} (hc : isPlain c) {cs rest : List Char}
    (h : after? c (trimStart cs) = some rest) : ∃ pre, Plain pre ∧ cs = pre ++ rest := by
  obtain ⟨ws, hw, hblank⟩ := exists_trimStart cs
  rw [after?_eq_some] at h
  refine ⟨ws ++ [c], (plain_blanks hw).append (List.forall_mem_singleton.mpr hc), ?_⟩
  rw [List.append_assoc, List.singleton_append, ← h, ← hblank]

theorem exists_formulaHead? {cs name rest : List Char} (h : formulaHead? cs = some (name, rest)) :
    ∃ pre, Plain pre ∧ cs = pre ++ rest := by
  simp only [formulaHead?, Option.bind_eq_bind, Option.bind_eq_some_iff] at h
  obtain ⟨p, hword, formula, hequals, hrest⟩ := h
  obtain ⟨hname, rfl⟩ := exists_word? hword
  obtain ⟨pre, hpre, hp⟩ := exists_plain_after? (by decide) hequals
  obtain ⟨-, rfl⟩ : _ ∧ formula = rest := by
    split at hrest
    · cases hrest
    · simpa using hrest
  have hword := plain_of_isOrdinary fun c hc => isOrdinary_of_isWordChar (hname c hc)
  exact ⟨p.1 ++ pre, hword.append hpre, by rw [List.append_assoc, ← hp]⟩

theorem exists_of_assignmentHead? {cs name rest : List Char}
    (h : assignmentHead? cs = some (name, rest)) :
    ∃ tail inside after, cs = ['S', 'e', 't'] ++ tail ∧ trimStart tail = '(' :: inside ∧
      word? (trimStart inside) = some (name, after) ∧ trimStart after = ',' :: rest := by
  simp only [assignmentHead?, Option.bind_eq_bind, Option.bind_eq_some_iff, after?_eq_some] at h
  obtain ⟨_, rfl, _, rfl, tail, rfl, inside, hopen, ⟨word, after⟩, hword, e, hcomma, hp⟩ := h
  obtain ⟨rfl, rfl⟩ : word = name ∧ e = rest := by simpa using hp
  exact ⟨tail, inside, after, rfl, hopen, hword, hcomma⟩

theorem isWordChar_of_mem_set : ∀ c ∈ ['S', 'e', 't'], isWordChar c = true := by
  intro c hc
  simp only [List.mem_cons, List.not_mem_nil, or_false] at hc
  obtain rfl | rfl | rfl := hc <;> decide +kernel

theorem exists_assignmentHead? {cs name rest : List Char}
    (h : assignmentHead? cs = some (name, rest)) :
    ∃ pre, Plain ('S' :: pre) ∧ cs = 'S' :: pre ++ rest := by
  obtain ⟨tail, inside, after, rfl, hopen, hword, hcomma⟩ := exists_of_assignmentHead? h
  obtain ⟨pre₁, h₁, rfl⟩ := exists_plain_after? (by decide) (after?_eq_some.mpr hopen)
  obtain ⟨pre₂, h₂, rfl⟩ := exists_plain_word? hword
  obtain ⟨pre₃, h₃, hcs⟩ := exists_plain_after? (by decide) (after?_eq_some.mpr hcomma)
  have hset : Plain ['S', 'e', 't'] := by simp [Plain, isPlain]
  exact ⟨['e', 't'] ++ pre₁ ++ pre₂ ++ pre₃, ((hset.append h₁).append h₂).append h₃,
    by simp [hcs]⟩

theorem beforeClose?_eq_some {cs e : List Char} :
    beforeClose? cs = some e ↔ cs = e ++ [')'] := by
  rw [beforeClose?, Option.map_eq_some_iff]
  constructor
  · rintro ⟨r, hr, rfl⟩
    rw [after?_eq_some] at hr
    rw [← List.reverse_cons, ← hr, List.reverse_reverse]
  · rintro rfl
    exact ⟨e.reverse, by simp [after?], List.reverse_reverse e⟩

theorem beforeClose?_append_of_getLast? {cs x : List Char} (hx : x ≠ [])
    (h : x.getLast? ≠ some ')') : beforeClose? (cs ++ x) = none := by
  refine Option.eq_none_iff_forall_ne_some.mpr fun e he => h ?_
  rw [← List.getLast?_append_of_ne_nil cs hx, beforeClose?_eq_some.mp he, List.getLast?_concat]

end FormulaShell.Script
