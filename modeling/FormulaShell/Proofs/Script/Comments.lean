import FormulaShell.Proofs.Formula.Contents
import FormulaShell.Proofs.Script.LexerAgreement
import FormulaShell.Proofs.Text.Trim

namespace FormulaShell.Script

open FormulaShell.Text FormulaShell.Formula

theorem between_of_reads {s : Scan} {text rest : List Char} {token : Option (TokenKind × String)}
    (h : Reads text rest token) (hb : token ≠ none → ∀ c ∈ text.head?, isBlank c = false)
    (hs : s.Between (text ++ rest)) : (s.run text).Between rest := by
  cases token with
  | none => exact (between_of_trivia h hs).1
  | some t => exact (counted_of_reads h (hb (by simp)) hs).2

theorem region_run_slashes {s : Scan} {body rest : List Char}
    (hs : s.Between ('/' :: '/' :: body ++ rest)) (hn : '\n' ∉ body) :
    (s.run ('/' :: '/' :: body)).region = .lineComment := by
  rw [Scan.run_cons, Scan.run_cons, (step_comment hs).1]
  exact (Scan.run_lineComment rfl hn).1

/-- A text can be cut before a blank or a parenthesis at which a scan is in code, and before a blank
at its end. -/
theorem contentsOf_append_stop {b : Char} (hb : isStop b) {s : Scan} {cs w : List Char}
    (hs : s.Between cs) (hr : (s.run cs).region = .code ∨ isBlank b ∧ w = []) :
    contentsOf (cs ++ b :: w) =
      (contentsOf cs).bind fun xs => (contentsOf (b :: w)).map (xs ++ ·) := by
  induction hn : cs.length using Nat.strongRecOn generalizing s cs with
  | _ n ih =>
    subst hn
    cases cs with
    | nil =>
      simp
    | cons c cs =>
      cases hl : lexeme c cs with
      | error fault =>
        have hw : w = [] ∨ fault = .emptyName ∨ ∃ d, fault = .unexpected d := by
          obtain ⟨h1, h2, h3⟩ := region_of_unclosed hs hl
          cases fault <;> simp_all
        rw [contentsOf_error hl, List.cons_append,
          contentsOf_error (lexeme_append_stop hb w hl hw)]
        rfl
      | ok l =>
        obtain ⟨tail, rest, rfl, -, hread, hblank⟩ := lexeme_reads hl
        have hhead : l.token ≠ none → ∀ d ∈ (c :: tail).head?, isBlank d = false := by
          intro ht d hd
          obtain rfl : c = d := by simpa using hd
          exact hblank ht
        have hbetween := between_of_reads hread hhead hs
        by_cases hline : rest = [] ∧ (∃ body, c :: tail = '/' :: '/' :: body) ∧ b ≠ '\n'
        · -- the blank belongs to a line comment, which is the end of the text
          obtain ⟨rfl, ⟨body, htext⟩, hne⟩ := hline
          rw [htext] at hread
          obtain ⟨hbody, ht⟩ := reads_slashes hread
          have hregion : (s.run (c :: (tail ++ []))).region = .lineComment := by
            rw [List.append_nil, htext]
            rw [← List.cons_append, htext] at hs
            exact region_run_slashes hs hbody
          obtain ⟨hblank, rfl⟩ := hr.resolve_left (by rw [hregion]; decide)
          have hlong : Reads ('/' :: '/' :: (body ++ [b])) [] none :=
            .lineComment (by simp [hbody, hne.symm]) (by simp)
          have hwith := contentsOf_trivia hlong
          have hwithout := contentsOf_trivia (ht ▸ hread)
          simp only [List.append_nil, List.cons_append] at hwith hwithout ⊢
          rw [← List.cons_append, htext, List.cons_append, List.cons_append, hwith, hwithout,
            contentsOf_blank hblank]
          simp
        · have hread' := hread.append_stop hb w fun hrest hbody => by
            by_contra hne
            exact hline ⟨hrest, hbody, hne⟩
          have hlt : rest.length < (c :: (tail ++ rest)).length := by
            rw [List.length_cons, List.length_append]
            omega
          rw [← List.cons_append, List.append_assoc, contentsOf_reads hread',
            contentsOf_reads hread, ih _ hlt hbetween (by simpa [Scan.run_append] using hr) rfl]
          cases contentsOf rest with
          | none => rfl
          | some xs => cases contentsOf (b :: w) <;> simp

theorem contentsOf_append_blanks {ws : List Char} (hw : Blanks ws) (cs : List Char) :
    contentsOf (cs ++ ws) = contentsOf cs := by
  induction ws generalizing cs with
  | nil => rw [List.append_nil]
  | cons b ws ih =>
    obtain ⟨hb, hw⟩ := List.forall_mem_cons.mp hw
    have hcut := contentsOf_append_stop (isStop_of_isBlank hb) (between_start cs) (.inr ⟨hb, rfl⟩)
    rw [← List.singleton_append, ← List.append_assoc, ih hw, hcut,
      contentsOf_blank hb, contentsOf_nil]
    simp

theorem contentsOf_blanks_append {ws : List Char} (hw : Blanks ws) (cs : List Char) :
    contentsOf (ws ++ cs) = contentsOf cs := by
  induction ws with
  | nil => rfl
  | cons b ws ih =>
    obtain ⟨hb, hw⟩ := List.forall_mem_cons.mp hw
    rw [List.cons_append, contentsOf_blank hb, ih hw]

theorem contentsOf_trim (cs : List Char) : contentsOf (trim cs) = contentsOf cs := by
  obtain ⟨ws, hw, hcs⟩ := exists_trimStart cs
  obtain ⟨vs, hv, ht⟩ := exists_trimEnd (trimStart cs)
  have hstart := contentsOf_blanks_append hw (trimStart cs)
  have hend := contentsOf_append_blanks hv (trimEnd (trimStart cs))
  rw [← hcs] at hstart
  rw [← ht] at hend
  rw [trim, ← hend, ← hstart]

/-- A comment from its opening to the first mark that closes it. -/
def IsBlockComment (k : List Char) : Prop :=
  ∃ body, k = '/' :: '*' :: body ∧ commentLength? body = some body.length

/-- A comment to the end of its line, without the line break. -/
def IsLineComment (k : List Char) : Prop := ∃ body, k = '/' :: '/' :: body ∧ '\n' ∉ body

def IsComment (k : List Char) : Prop := IsBlockComment k ∨ IsLineComment k

section

variable {k : List Char}

theorem IsBlockComment.reads (h : IsBlockComment k) (rest : List Char) : Reads k rest none := by
  obtain ⟨body, rfl, hl⟩ := h
  exact .blockComment (commentLength?_append hl rest)

theorem IsComment.reads (h : IsComment k) : Reads k [] none := by
  obtain h | ⟨body, rfl, hn⟩ := h
  · exact h.reads []
  · exact .lineComment hn (by simp)

theorem IsComment.exists_cons (h : IsComment k) : ∃ rest, k = '/' :: rest := by
  obtain ⟨body, rfl, -⟩ | ⟨body, rfl, -⟩ := h
  · exact ⟨_, rfl⟩
  · exact ⟨_, rfl⟩

theorem IsComment.contentsOf (h : IsComment k) : contentsOf k = some [] := by
  have hk := contentsOf_trivia h.reads
  rwa [List.append_nil, contentsOf_nil] at hk

theorem exists_concat_of_commentLength? {body : List Char}
    (h : commentLength? body = some body.length) : ∃ front, body = front ++ ['/'] := by
  induction body with
  | nil => cases h
  | cons c body ih =>
    rw [commentLength?] at h
    split at h
    next hc =>
      obtain ⟨rfl, hd⟩ := hc
      obtain ⟨rest, rfl⟩ := List.head?_eq_some_iff.mp hd
      obtain rfl : rest = [] := by simpa using h
      exact ⟨['*'], rfl⟩
    next =>
      obtain ⟨front, rfl⟩ := ih (by simpa using h)
      exact ⟨c :: front, rfl⟩

theorem IsBlockComment.exists_concat (h : IsBlockComment k) : ∃ front, k = front ++ ['/'] := by
  obtain ⟨body, rfl, hl⟩ := h
  obtain ⟨front, rfl⟩ := exists_concat_of_commentLength? hl
  exact ⟨'/' :: '*' :: front, rfl⟩

theorem IsBlockComment.trimEnd_eq (h : IsBlockComment k) : trimEnd k = k := by
  obtain ⟨front, rfl⟩ := h.exists_concat
  have hslash : trimEnd ['/'] = ['/'] := by decide
  rw [trimEnd_append (by simp [hslash]), hslash]

theorem IsComment.trimEnd (h : IsComment k) : IsComment (trimEnd k) := by
  obtain h | ⟨body, rfl, hn⟩ := h
  · rw [h.trimEnd_eq]
    exact .inl h
  · obtain ⟨ws, -, hbody⟩ := exists_trimEnd body
    refine .inr ⟨Text.trimEnd body, ?_, fun hm => hn ?_⟩
    · rw [trimEnd_cons (by decide), trimEnd_cons (by decide)]
    · rw [hbody]
      exact List.mem_append_left _ hm

theorem contentsOf_append_comment (hk : IsComment k) {s : Scan} {cs : List Char} (hs : s.Between cs)
    (hr : (s.run cs).region = .code) : contentsOf (cs ++ ' ' :: k) = contentsOf cs := by
  rw [contentsOf_append_stop (by decide) hs (.inl hr), contentsOf_blank (by decide), hk.contentsOf]
  simp

end

theorem Plain.between {cs : List Char} (h : Plain cs) (rest : List Char) :
    (Scan.start.run cs).Between rest := by
  obtain ⟨hr, hl⟩ := h.run (t := Scan.start) rfl nofun
  exact .inl ⟨hr, fun he => absurd he hl⟩

theorem plain_blanks {ws : List Char} (h : Blanks ws) : Plain ws :=
  plain_of_isOrdinary fun c hc => isOrdinary_of_isBlank (h c hc)

theorem useful_run_blanks {ws : List Char} (hw : Blanks ws) (s : Scan) :
    (s.run ws).useful = s.useful := by
  induction ws generalizing s with
  | nil => rfl
  | cons b ws ih =>
    obtain ⟨hb, hw⟩ := List.forall_mem_cons.mp hw
    have hstep : (s.step b).useful = s.useful := by
      have hord := isOrdinary_of_isBlank hb
      simp only [isOrdinary, Bool.and_eq_true, bne_iff_ne] at hord
      obtain ⟨⟨⟨⟨hd, hq⟩, hslash⟩, hstar⟩, -⟩ := hord
      cases hr : s.region <;> simp [Scan.step, hr, Scan.take, hb, hd, hq, hslash, hstar]
    rw [Scan.run_cons, ih hw, hstep]

theorem step_eq_of_code {s t : Scan} (hs : s.region = .code) (ht : t.region = .code)
    (hd : s.depth = t.depth) (hu : s.useful = t.useful) (hsl : s.last ≠ some '/')
    (htl : t.last ≠ some '/') (c : Char) : s.step c = t.step c := by
  simp [Scan.step, hs, ht, hsl, htl, Scan.take, hd, hu]

theorem scan_trimStart {cs : List Char} (h : trimStart cs ≠ []) :
    scan (trimStart cs) = scan cs := by
  obtain ⟨ws, hw, hcs⟩ := exists_trimStart cs
  obtain ⟨c, rest, ht⟩ := List.exists_cons_of_ne_nil h
  have hcount := Scan.counted_ordinary (s := Scan.start) rfl fun d hd =>
    isOrdinary_of_isBlank (hw d hd)
  obtain ⟨hregion, hlast⟩ := (plain_blanks hw).run (t := Scan.start) rfl nofun
  have hdepth : (Scan.start.run ws).depth = Scan.start.depth := by simpa using hcount.depth
  have hstep : (Scan.start.run ws).step c = Scan.start.step c :=
    step_eq_of_code hregion rfl hdepth (useful_run_blanks hw _) hlast nofun c
  have hscan : scan cs = (Scan.start.run ws).run (trimStart cs) := by
    rw [← Scan.run_append, ← hcs, scan]
  rw [hscan, ht, scan, Scan.run_cons, Scan.run_cons, hstep]

theorem useful_scan_trim (cs : List Char) : (scan (trim cs)).useful = (scan cs).useful := by
  by_cases h : trimStart cs = []
  · obtain ⟨ws, hw, hcs⟩ := exists_trimStart cs
    rw [h, List.append_nil] at hcs
    have hblank := useful_run_blanks hw Scan.start
    rw [trim, h, hcs, scan, scan, hblank]
    rfl
  · obtain ⟨ws, hw, hcs⟩ := exists_trimEnd (trimStart cs)
    rw [← scan_trimStart h]
    conv => rhs; rw [hcs]
    rw [scan, scan, Scan.run_append, useful_run_blanks hw]
    rfl

theorem useful_scan_append_comment {s k : List Char} (hs : (scan s).region = .code)
    (hk : IsComment k) : (scan (s ++ ' ' :: k)).useful = (scan s).useful := by
  have hbetween : (scan s).Between ([' '] ++ k) := .inl ⟨hs, fun _ c hc => by cases hc; decide⟩
  obtain ⟨hcode, -, hspace⟩ := between_of_trivia (.blank (by decide)) hbetween
  rw [← List.append_nil k] at hcode
  obtain ⟨-, -, hcomment⟩ := between_of_trivia hk.reads hcode
  rw [scan, Scan.run_append, ← List.singleton_append, Scan.run_append, ← scan, hcomment, hspace]

theorem scan_blockComment {k : List Char} (hk : IsBlockComment k) : scan k = Scan.start := by
  obtain ⟨body, rfl, hl⟩ := hk
  have hbody : commentLength? (body ++ []) = some body.length := by rwa [List.append_nil]
  rw [scan, Scan.run_cons, Scan.run_cons, (step_comment (between_start ('/' :: body))).2,
    Scan.run_blockComment rfl (by simp) hbody]
  rfl

theorem useful_scan_comment_append {s k : List Char} (hk : IsBlockComment k) :
    (scan (k ++ ' ' :: s)).useful = (scan s).useful := by
  have hspace : trim (' ' :: s) = trim s := rfl
  rw [scan, Scan.run_append, ← scan, scan_blockComment hk, ← scan, ← useful_scan_trim, hspace,
    useful_scan_trim]

end FormulaShell.Script
