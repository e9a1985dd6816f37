import FormulaShell.Proofs.Script.Classification
import FormulaShell.Proofs.Script.Code
import FormulaShell.Proofs.Script.Statements
import Mathlib.Order.Bounds.Defs

namespace FormulaShell.Script

open FormulaShell.Text

/-- The last line is blank, or it leaves no bracket open, nor one closed in excess, and its code
does not trail off in the given way. -/
def CompleteUnless (trails : List Char → Prop) (run : List (List Char)) : Prop :=
  ∃ before line, run = before ++ [line] ∧
    (Blanks line ∨ (scan (joined run)).depth = 0 ∧ ¬ trails ((scan (joined before)).codeOf line))

def Complete (run : List (List Char)) : Prop := CompleteUnless TrailsAssignment run

def promptsOf : List (List Char) → List String
  | [] => []
  | _ :: rest => mainPrompt :: rest.map fun _ => continuationPrompt

inductive Part where
  /-- The lines of a statement that the last one ends. -/
  | statement (run : List (List Char))
  /-- The lines of a statement that the end of the input ends. -/
  | unfinished (run : List (List Char))
  | dropped (line : List Char)

namespace Part

def lines : Part → List (List Char)
  | statement run | unfinished run => run
  | dropped line => [line]

def given? : Part → Option (List Char)
  | statement run | unfinished run => some (joined run)
  | dropped _ => none

def prompts : Part → List String
  | statement run => promptsOf run
  | unfinished run => promptsOf run ++ [continuationPrompt]
  | dropped line => promptsOf [line]

end Part

/-- The run, before the given rest, is the shortest that is complete or comes to the end. -/
def Shortest (complete : List (List Char) → Prop) (run rest : List (List Char)) : Prop :=
  IsLeast {n | 0 < n ∧ (complete ((run ++ rest).take n) ∨ n = (run ++ rest).length)} run.length

/-- What holds of a part with the given lines after it. -/
def Part.Fits (rest : List (List Char)) : Part → Prop
  | statement run => Complete run ∧ Shortest Complete run rest ∧ classify (joined run) ≠ .empty
  | unfinished run =>
    rest = [] ∧ ¬ Complete run ∧ Shortest Complete run rest ∧ classify (joined run) ≠ .empty
  | dropped line => (scan line).useful = 0

/-- Lines fall into parts, one after another. -/
inductive Division : List (List Char) → List Part → Prop where
  | done : Division [] []
  | part {p rest parts} : p.Fits rest → Division rest parts →
      Division (p.lines ++ rest) (p :: parts)

theorem Division.flatMap_lines {ls : List (List Char)} {parts : List Part} (h : Division ls parts) :
    parts.flatMap Part.lines = ls := by
  induction h with
  | done => rfl
  | part _ _ ih => rw [List.flatMap_cons, ih]

theorem joined_concat (before : List (List Char)) (line : List Char) :
    joined (before ++ [line]) = joined before ++ (line ++ ['\n']) := by
  simp [joined]

namespace Accumulator

def holding (before : List (List Char)) : Accumulator := ⟨joined before, scan (joined before)⟩

variable {before : List (List Char)} {line : List Char}

theorem add_holding (before : List (List Char)) (line : List Char) :
    (holding before).add line = holding (before ++ [line]) := by
  simp [add, holding, joined_concat, scan, Scan.run_append]

theorem prompt_holding_of_ne_nil (h : before ≠ []) :
    (holding before).prompt = continuationPrompt := by
  cases before with
  | nil => exact absurd rfl h
  | cons first rest => simp [prompt, isContinuing, holding, joined]

theorem prompt_holding (before : List (List Char)) (line : List Char) :
    promptsOf before ++ [(holding before).prompt] = promptsOf (before ++ [line]) := by
  cases before with
  | nil => rfl
  | cons first rest =>
    rw [prompt_holding_of_ne_nil (List.cons_ne_nil first rest)]
    simp [promptsOf]

theorem finish?_holding (h : 0 < (scan (joined before)).useful) :
    (holding before).finish? = some (joined before) :=
  if_neg h.ne'

theorem feed_of_goesOn (h : (holding before).goesOn line) :
    (holding before).feed line = (holding (before ++ [line]), none) := by
  rw [feed, if_pos h, add_holding]

theorem feed_of_useful (h : (holding before).goesOn line = false)
    (huseful : 0 < (scan (joined (before ++ [line]))).useful) :
    (holding before).feed line = (.empty, some (joined (before ++ [line]))) := by
  rw [feed, h, if_neg Bool.false_ne_true, add_holding, finish?_holding huseful]

theorem feed_of_not_useful (h : (holding before).goesOn line = false)
    (hzero : (scan (joined (before ++ [line]))).useful = 0) :
    (holding before).feed line = (.empty, none) := by
  rw [feed, h, if_neg Bool.false_ne_true, add_holding, finish?, holding, if_pos hzero]

theorem goesOn_holding : (holding before).goesOn line ↔ ¬ Complete (before ++ [line]) := by
  have hdepth : ((holding before).add line).state.depth =
      (scan (joined (before ++ [line]))).depth := by rw [add_holding]; rfl
  rw [goesOn, hdepth, Bool.and_eq_true, Bool.or_eq_true, endsWithAssignment_iff]
  simp only [Bool.not_eq_true', bne_iff_ne]
  constructor
  · rintro ⟨hblank, hopen⟩ ⟨before', line', hrun, hend⟩
    obtain ⟨rfl, hline⟩ := List.append_inj' hrun rfl
    obtain rfl := List.singleton_inj.mp hline
    obtain hblanks | ⟨hzero, htrails⟩ := hend
    · rw [List.all_eq_true.mpr hblanks] at hblank
      cases hblank
    · exact hopen.elim (absurd hzero) htrails
  · intro h
    refine ⟨?_, ?_⟩
    · rw [Bool.eq_false_iff]
      exact fun hall => h ⟨before, line, rfl, .inl (List.all_eq_true.mp hall)⟩
    · by_contra hopen
      rw [not_or, not_not] at hopen
      exact h ⟨before, line, rfl, .inr hopen⟩

theorem fresh_joined (before : List (List Char)) : (scan (joined before)).Fresh := by
  obtain rfl | ⟨init, line, rfl⟩ := before.eq_nil_or_concat'
  · exact Scan.fresh_start
  · rw [joined_concat, ← List.append_assoc]
    exact Scan.fresh_run_break _ _

theorem useful_joined_concat (before : List (List Char)) (line : List Char) :
    (scan (joined (before ++ [line]))).useful =
      (scan (joined before)).useful + usefulIn ((scan (joined before)).codeOf line) := by
  have hbreak : Blanks ['\n'] := by simp [Blanks]; decide
  rw [joined_concat, ← List.append_assoc, scan, Scan.run_append, useful_run_blanks hbreak,
    Scan.run_append, ← scan, Scan.useful_run_line (fresh_joined before)]

theorem useful_joined_singleton (line : List Char) :
    (scan (joined [line])).useful = (scan line).useful := by
  refine (useful_joined_concat [] line).trans ?_
  exact (Scan.useful_run_line Scan.fresh_start line).symm

theorem useful_of_not_complete (h : ¬ Complete (before ++ [line])) :
    0 < (scan (joined (before ++ [line]))).useful := by
  by_cases htrails : TrailsAssignment ((scan (joined before)).codeOf line)
  · rw [useful_joined_concat]
    have := usefulIn_pos_of_trailsAssignment htrails
    omega
  · exact Scan.useful_pos_of_depth fun hzero => h ⟨before, line, rfl, .inr ⟨hzero, htrails⟩⟩

end Accumulator

open Accumulator

def Begun (before : List (List Char)) : Prop :=
  ∀ first, first ≠ [] → first <+: before → ¬ Complete first

theorem begun_nil : Begun [] := fun _ hne hprefix => absurd (List.prefix_nil.mp hprefix) hne

theorem Begun.concat {before : List (List Char)} {line : List Char} (h : Begun before)
    (hc : ¬ Complete (before ++ [line])) : Begun (before ++ [line]) := by
  intro first hne hprefix
  obtain rfl | hprefix := List.prefix_concat_iff.mp hprefix
  · exact hc
  · exact h first hne hprefix

theorem Begun.useful {before : List (List Char)} (h : Begun before) (hne : before ≠ []) :
    0 < (scan (joined before)).useful := by
  obtain rfl | ⟨init, line, rfl⟩ := before.eq_nil_or_concat'
  · exact absurd rfl hne
  · exact useful_of_not_complete (h _ hne List.prefix_rfl)

theorem Begun.eq_nil {before : List (List Char)} {line : List Char} (h : Begun before)
    (hzero : (scan (joined (before ++ [line]))).useful = 0) : before = [] := by
  by_contra hne
  have := h.useful hne
  rw [useful_joined_concat] at hzero
  omega

theorem Begun.lt_of_complete {before rest : List (List Char)} (h : Begun before) {n : Nat}
    (hc : Complete ((before ++ rest).take n)) : before.length < n := by
  by_contra hle
  rw [Nat.not_lt] at hle
  rw [List.take_append_of_le_length hle] at hc
  refine h _ ?_ (List.take_prefix n before) hc
  obtain ⟨front, line, hrun, -⟩ := hc
  rw [hrun]
  simp

theorem Begun.shortest {before : List (List Char)} {line : List Char} (h : Begun before)
    (hc : Complete (before ++ [line])) (rest : List (List Char)) :
    Shortest Complete (before ++ [line]) rest := by
  refine ⟨⟨by simp, .inl (by rwa [List.take_left' rfl])⟩, ?_⟩
  rintro n ⟨-, hn | rfl⟩
  · rw [List.append_assoc] at hn
    have := h.lt_of_complete hn
    rw [List.length_append, List.length_singleton]
    omega
  · rw [@List.length_append _ (before ++ [line])]
    exact Nat.le_add_right _ _

theorem Begun.shortest_of_end {before : List (List Char)} (h : Begun before) (hne : before ≠ []) :
    Shortest Complete before [] := by
  refine ⟨⟨List.length_pos_iff.mpr hne, .inr (by rw [List.append_nil])⟩, ?_⟩
  rintro n ⟨-, hn | rfl⟩
  · exact (h.lt_of_complete hn).le
  · rw [List.append_nil]

theorem classify_ne_empty {cs : List Char} (h : 0 < (scan cs).useful) : classify cs ≠ .empty := by
  have huseful : (scan (trim cs)).useful ≠ 0 := by
    rw [useful_scan_trim]
    omega
  rw [classify_of_useful huseful]
  split
  · nofun
  · unfold otherwise
    split
    · nofun
    · split <;> nofun

def readFrom (a : Accumulator) (lines : List Line) : List Reading :=
  let r := readOn a lines
  match r.result with
  | .ok (some _) => r :: readAll r.rest
  | _ => [r]

theorem readAll_eq (lines : List Line) : readAll lines = readFrom .empty lines := by
  rw [readAll, readFrom, ← readStatement]
  split
  next s hs => simp only [hs]
  next hs =>
    split
    next s hs' => exact absurd hs' (hs s)
    next => rfl

def withPrompt (prompt : String) : List Reading → List Reading
  | [] => []
  | r :: reads => { r with prompts := prompt :: r.prompts } :: reads

section

variable {a b : Accumulator} {line s : List Char} (rest : List Line)

theorem readFrom_of_none (h : a.feed line = (b, none)) :
    readFrom a (.ok line :: rest) = withPrompt a.prompt (readFrom b rest) := by
  rw [readFrom, readOn, h]
  dsimp only
  rw [readFrom]
  split <;> rfl

theorem readFrom_of_some (h : a.feed line = (b, some s)) :
    readFrom a (.ok line :: rest) = ⟨[a.prompt], .ok (some s), rest⟩ :: readFrom .empty rest := by
  rw [readFrom, readOn, h, readAll_eq]

theorem readFrom_nil (h : a.finish? = some s) :
    readFrom a [] = ⟨[a.prompt], .ok (some s), []⟩ :: readFrom .empty [] := by
  rw [readFrom, readOn, h, readAll_eq]

end

/-- Reads that follow these prompts, against the parts of the input. -/
structure Accounts (asked : List String) (reads : List Reading) (parts : List Part) : Prop where
  results : reads.map Reading.result =
    (parts.filterMap Part.given?).map (fun s => .ok (some s)) ++ [.ok none]
  prompts : asked ++ reads.flatMap Reading.prompts = parts.flatMap Part.prompts ++ [mainPrompt]
  rest : reads.getLast?.map Reading.rest = some []

section

variable {asked : List String} {reads : List Reading} {parts : List Part} {p : Part}

theorem Accounts.ne_nil (h : Accounts asked reads parts) : reads ≠ [] := by
  rintro rfl
  simpa using h.results

theorem Accounts.withPrompt {prompt : String} (h : Accounts (asked ++ [prompt]) reads parts) :
    Accounts asked (withPrompt prompt reads) parts := by
  obtain ⟨hresults, hprompts, hrest⟩ := h
  cases reads with
  | nil => simp at hresults
  | cons r reads =>
    refine ⟨hresults, ?_, ?_⟩
    · simpa [Script.withPrompt] using hprompts
    · cases reads with
      | nil => exact hrest
      | cons r' reads => simpa [Script.withPrompt] using hrest

theorem Accounts.given {prompt : String} {s : List Char} (h : Accounts [] reads parts)
    (hgiven : p.given? = some s) (hprompts : asked ++ [prompt] = p.prompts) (rest : List Line) :
    Accounts asked (⟨[prompt], .ok (some s), rest⟩ :: reads) (p :: parts) := by
  refine ⟨?_, ?_, ?_⟩
  · simp [hgiven, h.results]
  · rw [List.flatMap_cons, List.flatMap_cons, ← List.append_assoc, hprompts, List.append_assoc,
      ← h.prompts, List.nil_append]
  · rw [List.getLast?_cons_of_ne_nil h.ne_nil]
    exact h.rest

theorem Accounts.dropped (h : Accounts [] reads parts) (hgiven : p.given? = none) :
    Accounts p.prompts reads (p :: parts) := by
  refine ⟨?_, ?_, h.rest⟩
  · rw [List.filterMap_cons_none hgiven, h.results]
  · rw [List.flatMap_cons, List.append_assoc, ← h.prompts, List.nil_append]

end

/-- Reading on after lines that a statement has begun with. -/
theorem exists_division {before : List (List Char)} (h : Begun before) (ls : List (List Char)) :
    ∃ parts, Division (before ++ ls) parts ∧
      Accounts (promptsOf before) (readFrom (holding before) (ls.map .ok)) parts := by
  induction ls generalizing before with
  | nil =>
    obtain rfl | hne := eq_or_ne before []
    · exact ⟨[], .done, rfl, rfl, rfl⟩
    · have huseful := h.useful hne
      have hpart : (Part.unfinished before).Fits [] :=
        ⟨rfl, h before hne List.prefix_rfl, h.shortest_of_end hne, classify_ne_empty huseful⟩
      refine ⟨[.unfinished before], .part hpart .done, ?_⟩
      rw [List.map_nil, readFrom_nil (finish?_holding huseful), prompt_holding_of_ne_nil hne]
      exact Accounts.given ⟨rfl, rfl, rfl⟩ rfl rfl []
  | cons line ls ih =>
    rw [List.map_cons]
    -- A complete run is given or dropped, and reading starts afresh; else it goes on from it.
    by_cases hc : Complete (before ++ [line])
    · obtain ⟨parts, hdivision, haccounts⟩ := ih begun_nil
      have hgo : (holding before).goesOn line = false := by
        rw [Bool.eq_false_iff]
        exact fun hgo => goesOn_holding.mp hgo hc
      obtain hzero | huseful := Nat.eq_zero_or_pos (scan (joined (before ++ [line]))).useful
      · rw [readFrom_of_none _ (feed_of_not_useful hgo hzero)]
        obtain rfl := h.eq_nil hzero
        have hpart : (Part.dropped line).Fits ls := (useful_joined_singleton line).symm.trans hzero
        refine ⟨.dropped line :: parts, .part hpart hdivision, ?_⟩
        apply Accounts.withPrompt
        exact Accounts.dropped haccounts (p := .dropped line) rfl
      · rw [readFrom_of_some _ (feed_of_useful hgo huseful)]
        have hpart : (Part.statement (before ++ [line])).Fits ls :=
          ⟨hc, h.shortest hc ls, classify_ne_empty huseful⟩
        refine ⟨.statement (before ++ [line]) :: parts, ?_, ?_⟩
        · rw [List.append_cons]
          exact .part hpart hdivision
        · exact haccounts.given rfl (prompt_holding before line) _
    · have hgo : (holding before).goesOn line := goesOn_holding.mpr hc
      obtain ⟨parts, hdivision, haccounts⟩ := ih (h.concat hc)
      rw [readFrom_of_none _ (feed_of_goesOn hgo)]
      refine ⟨parts, by rwa [List.append_cons], ?_⟩
      apply Accounts.withPrompt
      rw [prompt_holding]
      exact haccounts

/-- Reading statement by statement takes all lines in order, each into exactly one statement or as a
dropped line without anything useful. A statement is the shortest run of lines that its last line or
the end of the input ends, and is never empty. There is one main prompt for each statement and
dropped line, at its first line, and one for the end of the input. -/
theorem division_of_readAll (ls : List (List Char)) :
    ∃ parts, Division ls parts ∧ parts.flatMap Part.lines = ls ∧
      Accounts [] (readAll (ls.map .ok)) parts := by
  obtain ⟨parts, hdivision, haccounts⟩ := exists_division begun_nil ls
  rw [readAll_eq]
  exact ⟨parts, hdivision, hdivision.flatMap_lines, haccounts⟩

/-- After an arrow the statement goes on as well: it is not the shortest run that ends without an
equals sign. -/
theorem not_shortest_after_arrow :
    let first := "F(n) =>".toList
    let second := "n".toList
    (readStatement [.ok first, .ok second]).result = .ok (some (joined [first, second])) ∧
      ¬ Shortest (CompleteUnless (Trails ['='])) [first, second] [] := by
  intro first second
  have hcode : (scan (joined [])).codeOf first = "F(n) =".toList ++ ['>'] := rfl
  have hend : ¬ Trails ['='] ((scan (joined [])).codeOf first) := by
    rw [hcode]
    rintro ⟨front, after, hafter, h⟩
    obtain rfl | ⟨blanks, c, rfl⟩ := after.eq_nil_or_concat'
    · rw [List.append_nil] at h
      exact absurd (List.append_inj' h rfl).2 (by decide)
    · rw [← List.append_assoc] at h
      obtain rfl : '>' = c := List.singleton_inj.mp (List.append_inj' h rfl).2
      exact absurd (hafter '>' (by simp)) (by decide)
  refine ⟨rfl, fun h => ?_⟩
  have hone := h.2 ⟨Nat.one_pos, .inl ⟨[], first, rfl, .inr ⟨rfl, hend⟩⟩⟩
  exact absurd hone (by decide)

end FormulaShell.Script
