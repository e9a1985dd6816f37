import FormulaShell.Proofs.Formula.Spacing
import FormulaShell.Proofs.Script.Division
import FormulaShell.Proofs.Script.Stretches
import Mathlib.Data.List.Infix

namespace FormulaShell.Script

open FormulaShell.Text FormulaShell.Formula

section

variable {mark : Char} {body cs : List Char}

theorem dropLast_prefix_append (xs ys : List Char) : xs.dropLast <+: (xs ++ ys).dropLast := by
  by_cases h : ys = []
  · simp [h]
  · rw [List.dropLast_append_of_ne_nil h]
    exact (List.dropLast_prefix xs).trans (List.prefix_append xs _)

theorem firstAfter_singleton : FirstAfter [mark] body ↔ mark ∉ body := by
  rw [FirstAfter, List.dropLast_concat, List.singleton_infix_iff]

theorem commentLength?_eq_none : commentLength? cs = none ↔ ¬ ['*', '/'] <:+: cs := by
  induction cs with
  | nil => simp [commentLength?]
  | cons c cs ih =>
    rw [commentLength?, List.infix_cons_iff]
    split
    next hc =>
      obtain ⟨rfl, hd⟩ := hc
      obtain ⟨rest, rfl⟩ := List.head?_eq_some_iff.mp hd
      simp
    next hc =>
      have hprefix : ¬ ['*', '/'] <+: c :: cs := by
        rintro ⟨rest, h⟩
        obtain ⟨rfl, rfl⟩ := List.cons.inj h
        exact hc ⟨rfl, rfl⟩
      simp [ih, hprefix]

theorem commentLength?_of_firstAfter (h : FirstAfter ['*', '/'] body) :
    commentLength? (body ++ ['*', '/']) = some (body ++ ['*', '/']).length := by
  cases hlength : commentLength? (body ++ ['*', '/']) with
  | none => exact absurd (List.suffix_append body _).isInfix (commentLength?_eq_none.mp hlength)
  | some n =>
    obtain ⟨body', htake, hno⟩ := commentLength?_split hlength
    have hfirst : FirstAfter ['*', '/'] body' := by
      rwa [FirstAfter, List.dropLast_append_of_ne_nil (by simp)]
    have hsplit := List.take_append_drop n (body ++ ['*', '/'])
    rw [htake, ← List.append_nil (body ++ ['*', '/'])] at hsplit
    obtain ⟨-, hdrop⟩ := hfirst.body_eq h hsplit
    have hle := commentLength?_le hlength
    have hge := List.drop_eq_nil_iff.mp hdrop
    rw [List.append_nil] at hge
    rw [Nat.le_antisymm hle hge]

end

namespace Scan

/-- No slash has been read that makes a mark of a comment with what follows. -/
def Unsplit (s : Scan) (rest : List Char) : Prop :=
  s.region = .code → s.last = some '/' → ∀ c ∈ rest.head?, c ≠ '/' ∧ c ≠ '*'

theorem Fresh.unsplit {s : Scan} (h : s.Fresh) (rest : List Char) : s.Unsplit rest :=
  fun hcode hl => absurd hl (h hcode)

section

variable {p : Scan × List Char} {c : Char}

theorem codeStep_kept (h : p.1.region.isComment = false)
    (h' : (p.1.step c).region.isComment = false) : codeStep p c = (p.1.step c, c :: p.2) := by
  rw [codeStep, h, h']

theorem codeStep_inside (h : p.1.region.isComment = true) :
    codeStep p c = (p.1.step c, p.2) := by
  rw [codeStep, h]

end

theorem region_run_quoted {quote : Char} {r : Region} (hq : Quotes quote r) {s : Scan}
    (hr : s.region = r) {cs : List Char} (h : quote ∉ cs) : (s.run cs).region = r := by
  induction cs generalizing s with
  | nil => exact hr
  | cons c cs ih =>
    obtain ⟨hc, hcs⟩ := not_or.mp (List.mem_cons.not.mp h)
    have hs := step_quoted hq hr c
    rw [if_neg (Ne.symm hc)] at hs
    exact ih (by rw [hs, region_take]) hcs

structure Within (d : Delimiters) (s : Scan) : Prop where
  region : s.region = d.region
  star : d.region = .blockComment → s.last ≠ some '*'

variable {d : Delimiters} {s : Scan} {body cs : List Char}

theorem Within.region_run (h : s.Within d) (hd : d ∈ delimiters) (hno : ¬ d.closing <:+: cs) :
    (s.run cs).region = d.region := by
  obtain ⟨hr, hstar⟩ := h
  simp only [delimiters, List.mem_cons, List.not_mem_nil, or_false] at hd
  rcases hd with rfl | rfl | rfl | rfl
  · exact region_run_quoted (.inl ⟨rfl, rfl⟩) hr ((List.singleton_infix_iff _ _).not.mp hno)
  · exact region_run_quoted (.inr ⟨rfl, rfl⟩) hr ((List.singleton_infix_iff _ _).not.mp hno)
  · exact (run_lineComment hr ((List.singleton_infix_iff _ _).not.mp hno)).1
  · exact region_run_blockComment hr (fun hl => absurd hl (hstar rfl))
      (commentLength?_eq_none.mpr hno)

theorem Within.close (h : s.Within d) (hd : d ∈ delimiters) (hfirst : FirstAfter d.closing body) :
    (s.run (body ++ d.closing)).region = .code ∧ (s.run (body ++ d.closing)).Fresh := by
  obtain ⟨hr, hstar⟩ := h
  simp only [delimiters, List.mem_cons, List.not_mem_nil, or_false] at hd
  have hquoted {quote : Char} {r : Region} (hq : Quotes quote r) (hr : s.region = r)
      (hfirst : FirstAfter [quote] body) (hslash : quote ≠ '/') :
      (s.run (body ++ [quote])).region = .code ∧ (s.run (body ++ [quote])).Fresh := by
    have hbody := region_run_quoted hq hr (firstAfter_singleton.mp hfirst)
    have hstep := step_quoted hq hbody quote
    rw [if_pos rfl] at hstep
    rw [run_append, run_cons, run_nil, hstep]
    exact ⟨rfl, fun _ hl => hslash (Option.some.inj hl)⟩
  rcases hd with rfl | rfl | rfl | rfl
  · exact hquoted (.inl ⟨rfl, rfl⟩) hr hfirst (by decide)
  · exact hquoted (.inr ⟨rfl, rfl⟩) hr hfirst (by decide)
  · have hbody := (run_lineComment hr (firstAfter_singleton.mp hfirst)).1
    refine ⟨?_, fresh_run_break _ _⟩
    rw [run_append, run_cons, run_nil]
    simp [step, hbody]
  · have hlength := commentLength?_of_firstAfter hfirst
    rw [← List.append_nil (body ++ _)] at hlength
    rw [run_blockComment hr (fun hl => absurd hl (hstar rfl)) (by simpa using hlength)]
    exact ⟨rfl, fun _ => (Option.some_ne_none '/').symm⟩

theorem Within.foldl_codeStep (h : s.Within d) (hd : d ∈ delimiters) (code : List Char)
    (hno : ¬ d.closing <:+: cs.dropLast) :
    (cs.foldl codeStep (s, code)).2 = (d.region.kept cs).reverse ++ code := by
  induction cs using List.reverseRecOn with
  | nil => simp [Region.kept]
  | append_singleton cs c ih =>
    rw [List.dropLast_concat] at hno
    have hbefore := ih fun hi => hno (hi.trans (List.dropLast_prefix cs).isInfix)
    have hregion : (cs.foldl codeStep (s, code)).1.region = d.region := by
      rw [fst_foldl_codeStep]
      exact h.region_run hd hno
    rw [List.foldl_concat]
    cases hcomment : d.region.isComment with
    | true =>
      rw [codeStep_inside (by rw [hregion, hcomment]), hbefore]
      simp [Region.kept, hcomment]
    | false =>
      have hquotes : ∃ quote, Quotes quote d.region := by
        simp only [delimiters, List.mem_cons, List.not_mem_nil, or_false] at hd
        rcases hd with rfl | rfl | rfl | rfl
        · exact ⟨'"', .inl ⟨rfl, rfl⟩⟩
        · exact ⟨'\'', .inr ⟨rfl, rfl⟩⟩
        · cases hcomment
        · cases hcomment
      obtain ⟨quote, hq⟩ := hquotes
      have hstep : ((cs.foldl codeStep (s, code)).1.step c).region.isComment = false := by
        rw [step_quoted hq hregion, region_take]
        split
        · rfl
        · exact hcomment
      rw [codeStep_kept (by rw [hregion, hcomment]) hstep, hbefore]
      simp [Region.kept, hcomment]

theorem foldl_opening {p : Scan × List Char} {tail : List Char} (hd : d ∈ delimiters)
    (hcode : p.1.region = .code) (hu : p.1.Unsplit (d.opening ++ tail)) :
    ∃ t : Scan, d.opening.foldl codeStep p =
      (t, (d.region.kept d.opening).reverse ++ p.2) ∧ t.Within d := by
  have hregion : p.1.region.isComment = false := by rw [hcode]; rfl
  have hquoted {quote : Char} {r : Region} (hq : Quotes quote r) (hr : r.isComment = false) :
      codeStep p quote = (p.1.take quote r 0, quote :: p.2) := by
    have hstep := step_open hq hcode
    rw [codeStep_kept hregion (by rw [hstep, region_take, hr]), hstep]
  have hslash (hu : p.1.last ≠ some '/') : codeStep p '/' = (p.1.take '/' .code 0, '/' :: p.2) := by
    have hstep := step_symbol (c := '/') hcode (fun hl => absurd hl hu) (by decide) (by decide)
    rw [codeStep_kept hregion (by rw [hstep]; rfl), hstep]
    rfl
  simp only [delimiters, List.mem_cons, List.not_mem_nil, or_false] at hd
  rcases hd with rfl | rfl | rfl | rfl
  · exact ⟨_, hquoted (.inl ⟨rfl, rfl⟩) rfl, rfl, fun h => absurd h (by decide)⟩
  · exact ⟨_, hquoted (.inr ⟨rfl, rfl⟩) rfl, rfl, fun h => absurd h (by decide)⟩
  · have hfirst := hslash fun hl => (hu hcode hl '/' rfl).1 rfl
    refine ⟨(p.1.take '/' .code 0).beginComment .lineComment (some '/'), ?_, rfl,
      fun h => absurd h (by decide)⟩
    rw [List.foldl_cons, hfirst]
    rfl
  · have hfirst := hslash fun hl => (hu hcode hl '/' rfl).1 rfl
    refine ⟨(p.1.take '/' .code 0).beginComment .blockComment none, ?_, rfl,
      fun _ => (Option.some_ne_none '*').symm⟩
    rw [List.foldl_cons, hfirst]
    rfl

theorem foldl_codeStep_stretch {p : Scan × List Char} {tail : List Char} (hd : d ∈ delimiters)
    (hcode : p.1.region = .code) (hu : p.1.Unsplit (d.opening ++ tail))
    (hno : ¬ d.closing <:+: cs.dropLast) :
    ((d.opening ++ cs).foldl codeStep p).2 =
      (d.region.kept (d.opening ++ cs)).reverse ++ p.2 := by
  obtain ⟨t, hopening, hwithin⟩ := foldl_opening hd hcode hu
  rw [List.foldl_append, hopening, hwithin.foldl_codeStep hd _ hno]
  cases h : d.region.isComment <;> simp [Region.kept, h]

theorem Unsplit.after_opening {tail xs ys : List Char} (hd : d ∈ delimiters)
    (hcode : s.region = .code) (hu : s.Unsplit (d.opening ++ tail))
    (hcs : d.opening ++ tail = xs ++ ys) (hcut : (s.run xs).Unsplit ys) :
    xs = [] ∨ ∃ us, xs = d.opening ++ us ∧ tail = us ++ ys := by
  obtain ⟨us, rfl, rfl⟩ | ⟨vs, hopening, rfl⟩ := List.append_eq_append_iff.mp hcs
  · exact .inr ⟨us, rfl, rfl⟩
  · by_cases hvs : vs = []
    · subst hvs
      exact .inr ⟨[], by simpa using hopening.symm, rfl⟩
    · left
      by_contra hxs
      -- the mark has two characters, and the slash has been read
      have htwo : ∃ c, xs = ['/'] ∧ vs = [c] ∧ (c = '/' ∨ c = '*') := by
        obtain ⟨x, xs, rfl⟩ := List.exists_cons_of_ne_nil hxs
        obtain ⟨v, vs, rfl⟩ := List.exists_cons_of_ne_nil hvs
        simp only [delimiters, List.mem_cons, List.not_mem_nil, or_false] at hd
        rcases hd with rfl | rfl | rfl | rfl <;> simp [List.cons_eq_append_iff] at hopening
        · obtain ⟨rfl, rfl, rfl, rfl⟩ := hopening
          exact ⟨'/', rfl, rfl, .inl rfl⟩
        · obtain ⟨rfl, rfl, rfl, rfl⟩ := hopening
          exact ⟨'*', rfl, rfl, .inr rfl⟩
      obtain ⟨c, rfl, rfl, hc⟩ := htwo
      have hslash : s.last ≠ some '/' := by
        intro hl
        exact (hu hcode hl '/' (by rw [hopening]; rfl)).1 rfl
      have hstep := step_symbol (c := '/') hcode (fun hl => absurd hl hslash) (by decide)
        (by decide)
      have hread : s.run ['/'] = s.take '/' .code (depthChange '/') := hstep
      rw [hread] at hcut
      have hmark := hcut rfl rfl c rfl
      exact hc.elim hmark.1 hmark.2

end Scan

theorem not_mark_of_not_opening {c : Char} {rest : List Char}
    (hno : ∀ d ∈ delimiters, ¬ d.opening <+: c :: rest) :
    c = '/' → ∀ e ∈ rest.head?, e ≠ '/' ∧ e ≠ '*' := by
  rintro rfl e he
  obtain ⟨tail, rfl⟩ := List.head?_eq_some_iff.mp he
  constructor
  · rintro rfl
    exact hno ⟨['/', '/'], ['\n'], .lineComment⟩ (by decide) ⟨tail, rfl⟩
  · rintro rfl
    exact hno ⟨['/', '*'], ['*', '/'], .blockComment⟩ (by decide) ⟨tail, rfl⟩

theorem Stretches.foldl_codeStep {cs : List Char} {ss : List Stretch} (h : Stretches cs ss)
    {p : Scan × List Char} (hcode : p.1.region = .code) (hu : p.1.Unsplit cs)
    {xs ys : List Char} (hcs : cs = xs ++ ys) (hcut : (p.1.run xs).Unsplit ys) :
    (xs.foldl Scan.codeStep p).2 = (outside ((placed ss).take xs.length)).reverse ++ p.2 := by
  induction h generalizing p xs with
  | done =>
    obtain ⟨rfl, rfl⟩ := List.append_eq_nil_iff.mp hcs.symm
    rfl
  | @code c rest ss hno _ ih =>
    cases xs with
    | nil => rfl
    | cons x xs =>
      obtain ⟨rfl, rfl⟩ := List.cons.inj hcs
      have hquote : c ≠ '"' := by
        rintro rfl
        exact hno ⟨['"'], ['"'], .doubleQuoted⟩ (by decide) ⟨_, rfl⟩
      have hapostrophe : c ≠ '\'' := by
        rintro rfl
        exact hno ⟨['\''], ['\''], .singleQuoted⟩ (by decide) ⟨_, rfl⟩
      have hstep := step_symbol hcode (fun hl => hu hcode hl c rfl) hquote hapostrophe
      have hunsplit : (p.1.step c).Unsplit (xs ++ ys) := by
        intro _ hl
        rw [hstep] at hl
        exact not_mark_of_not_opening hno (Option.some.inj hl)
      have htake : outside ((placed (⟨.code, [c]⟩ :: ss)).take (c :: xs).length) =
          c :: outside ((placed ss).take xs.length) := outside_take_past .code [c] xs ss
      rw [List.foldl_cons, Scan.codeStep_kept (by rw [hcode]; rfl) (by rw [hstep]; rfl),
        ih (p := (p.1.step c, c :: p.2)) (by rw [hstep]; rfl) hunsplit rfl hcut, htake,
        List.reverse_cons, List.append_assoc]
      rfl
  | @closed d body rest ss hd hfirst _ ih =>
    obtain rfl | ⟨us, rfl, htail⟩ := hu.after_opening hd hcode hcs hcut
    · rfl
    · obtain ⟨vs, rfl, rfl⟩ | ⟨vs, hbody, rfl⟩ := List.append_eq_append_iff.mp htail
      · -- the stretch has been read to its end
        have hpart : ¬ d.closing <:+: (body ++ d.closing).dropLast := hfirst
        obtain ⟨t, hopening, hwithin⟩ := Scan.foldl_opening hd hcode hu
        obtain ⟨hclosed, hfresh⟩ := hwithin.close hd hfirst
        have hrun : (((d.opening ++ (body ++ d.closing)).foldl Scan.codeStep p)).1 =
            t.run (body ++ d.closing) := by
          rw [List.foldl_append, hopening, Scan.fst_foldl_codeStep]
        have hafter : (((d.opening ++ (body ++ d.closing)).foldl Scan.codeStep p).1.run vs).Unsplit
            ys := by
          rwa [Scan.fst_foldl_codeStep, ← Scan.run_append, List.append_assoc]
        rw [← List.append_assoc d.opening, List.foldl_append,
          ih (by rw [hrun]; exact hclosed) (by rw [hrun]; exact hfresh.unsplit _) rfl hafter,
          Scan.foldl_codeStep_stretch hd hcode hu hpart, outside_take_past, List.reverse_append,
          List.append_assoc]
      · have hpart : ¬ d.closing <:+: us.dropLast := fun hi =>
          hfirst (hi.trans (hbody ▸ dropLast_prefix_append us vs).isInfix)
        rw [Scan.foldl_codeStep_stretch hd hcode hu hpart, hbody, ← List.append_assoc d.opening,
          outside_take_within]
  | @unclosed d body hd hno =>
    obtain rfl | ⟨us, rfl, rfl⟩ := hu.after_opening hd hcode hcs hcut
    · rfl
    · have hpart : ¬ d.closing <:+: us.dropLast := fun hi =>
        hno (hi.trans ((List.dropLast_prefix us).trans (List.prefix_append us ys)).isInfix)
      rw [Scan.foldl_codeStep_stretch hd hcode hu hpart, ← List.append_assoc, outside_take_within]

theorem Scan.CodeSoFar.append {s : Scan} {p : Scan × List Char} (h : CodeSoFar s p)
    (before line : List Char) :
    (line.foldl codeStep (p.1, p.2 ++ before)).2 = (line.foldl codeStep p).2 ++ before := by
  induction line generalizing p with
  | nil => rfl
  | cons c line ih =>
    have hstep : codeStep (p.1, p.2 ++ before) c =
        ((codeStep p c).1, (codeStep p c).2 ++ before) := by
      obtain ⟨t, code⟩ := p
      have hs := t.stepped c
      simp only [codeStep]
      generalize t.step c = u at hs ⊢
      cases hs with
      | inside hc => simp only [hc]
      | @opened r last hcode hl hr =>
        obtain ⟨rest, rfl⟩ : ∃ rest, code = '/' :: rest := h.slash hcode hl
        have hregion : (t.beginComment r last).region.isComment = true := hr
        have hbefore : t.region.isComment = false := by rw [hcode]; rfl
        simp only [hregion, hbefore, List.cons_append, List.drop_succ_cons, List.drop_zero]
      | taken hc hr => simp only [region_take, hc, hr, List.cons_append]
    rw [List.foldl_cons, List.foldl_cons, hstep]
    exact ih (h.step c)

theorem foldl_add_holding (before lines : List (List Char)) :
    lines.foldl Accumulator.add (.holding before) = .holding (before ++ lines) := by
  induction lines generalizing before with
  | nil => rw [List.append_nil]; rfl
  | cons line lines ih => rw [List.foldl_cons, Accumulator.add_holding, ih, List.append_assoc]; rfl

theorem unsplit_break (s : Scan) (rest : List Char) : s.Unsplit ('\n' :: rest) := by
  rintro - - _ ⟨⟩
  decide

/-- The code of a line is what no comment holds among the characters of the line, in the text that
the line stands in. -/
theorem codeOf_eq_outside {before line after : List Char} (hfresh : (scan before).Fresh)
    {ss : List Stretch} (h : Stretches (before ++ line ++ '\n' :: after) ss) :
    (scan before).codeOf line = outside (((placed ss).drop before.length).take line.length) := by
  have hstart : Scan.start.Unsplit (before ++ line ++ '\n' :: after) := Scan.fresh_start.unsplit _
  have hbefore := h.foldl_codeStep (p := (Scan.start, [])) rfl hstart
    (List.append_assoc before line _) (hfresh.unsplit _)
  have hline := h.foldl_codeStep (p := (Scan.start, [])) rfl hstart rfl (unsplit_break _ after)
  have hfold : before.foldl Scan.codeStep (Scan.start, []) =
      (scan before, (outside ((placed ss).take before.length)).reverse) := by
    refine Prod.ext (Scan.fst_foldl_codeStep before _) ?_
    rw [hbefore, List.append_nil]
  have hso : Scan.CodeSoFar (scan before) (scan before, []) :=
    ⟨rfl, fun hcode hl => absurd hl (hfresh hcode)⟩
  have happend := hso.append (outside ((placed ss).take before.length)).reverse line
  rw [List.foldl_append, hfold, ← List.nil_append (outside _).reverse, happend, List.length_append,
    List.take_add, outside_append, List.append_nil, List.reverse_append] at hline
  rw [Scan.codeOf, List.append_cancel_right hline, List.reverse_reverse]

/-- The second character of a mark takes back what the first has added. -/
theorem useful_of_comment_begins {s : Scan} (hs : s.Counts) {c : Char}
    (h : s.region.isComment = false) (hc : (s.step c).region.isComment) :
    (s.step c).useful + 1 = s.useful := by
  have hstepped := s.stepped c
  generalize s.step c = t at hstepped hc ⊢
  cases hstepped with
  | inside hr => rw [h] at hr; cases hr
  | opened hcode hl => exact Nat.sub_add_cancel (Nat.zero_lt_of_lt (hs.slash hcode hl))
  | taken _ hr =>
    rw [Scan.region_take, hr] at hc
    cases hc

/-- The code that is found in a line, after any lines, is what lies outside of the comments of the
text of all lines, whatever lines follow. There is one way to divide that text into stretches. Where
a comment begins, a useful character is taken back, so there must be one. -/
theorem code_of_added_line (before : List (List Char)) (line : List Char)
    (after : List (List Char)) :
    let a := before.foldl Accumulator.add .empty
    let text := ((line :: after).foldl Accumulator.add a).text
    (∃ ss, (∀ other, Stretches text other ↔ other = ss) ∧ (placed ss).map Prod.fst = text ∧
      a.state = scan a.text ∧
      a.state.codeOf line = outside (((placed ss).drop a.text.length).take line.length)) ∧
    ∀ (cs : List Char) (c : Char), (scan cs).region.isComment = false →
      (scan (cs ++ [c])).region.isComment → (scan (cs ++ [c])).useful + 1 = (scan cs).useful := by
  intro a text
  have ha : a = .holding before := foldl_add_holding [] before
  have htext : text = joined before ++ line ++ '\n' :: joined after := by
    change ((line :: after).foldl Accumulator.add a).text = _
    rw [ha, foldl_add_holding]
    simp [Accumulator.holding, joined]
  obtain ⟨ss, hss⟩ := Stretches.exists_stretches text
  refine ⟨⟨ss, fun other => ⟨fun h => h.eq hss, fun h => h ▸ hss⟩, hss.map_fst_placed, ?_, ?_⟩, ?_⟩
  · rw [ha]
    rfl
  · rw [htext] at hss
    rw [ha]
    exact codeOf_eq_outside (Accumulator.fresh_joined before) hss
  · intro cs c hbefore hafter
    have hrun : scan (cs ++ [c]) = (scan cs).step c := by rw [scan, Scan.run_append]; rfl
    rw [hrun] at hafter ⊢
    exact useful_of_comment_begins (Scan.counts_scan cs) hbefore hafter

/-- The quotation that the first line opens holds a comment's mark, and the comment that the second
opens ends before one. -/
theorem code_of_line_after_comment :
    let before := ["\"a".toList, "// b\" /*/ x".toList]
    let line := " */*/ y // \"z".toList
    let a := before.foldl Accumulator.add .empty
    (∃ ss, Stretches (a.add line).text ss ∧
      outside (((placed ss).drop a.text.length).take line.length) = "*/ y ".toList) ∧
    (scan "1/".toList).region.isComment = false ∧ (scan "1/*".toList).region.isComment ∧
    (scan "1/*".toList).useful + 1 = (scan "1/".toList).useful := by
  intro before line a
  obtain ⟨⟨ss, hss, -, -, hcode⟩, hcount⟩ := code_of_added_line before line []
  have hline : a.state.codeOf line = "*/ y ".toList := by decide +kernel
  refine ⟨⟨ss, (hss ss).mpr rfl, hcode.symm.trans hline⟩, by decide, by decide, ?_⟩
  exact hcount "1/".toList '*' (by decide) (by decide)

end FormulaShell.Script
