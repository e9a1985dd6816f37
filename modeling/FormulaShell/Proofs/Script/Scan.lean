import FormulaShell.Proofs.Formula.Lexes
import FormulaShell.Script.Scan

namespace FormulaShell.Script

open FormulaShell.Text FormulaShell.Formula

def usefulIn (cs : List Char) : Nat := cs.countP fun c => !isBlank c

theorem usefulIn_append (xs ys : List Char) : usefulIn (xs ++ ys) = usefulIn xs + usefulIn ys :=
  List.countP_append

theorem usefulIn_cons (c : Char) (cs : List Char) : usefulIn (c :: cs) = usefulIn [c] + usefulIn cs :=
  usefulIn_append [c] cs

def Quotes (quote : Char) (region : Region) : Prop :=
  quote = '"' ∧ region = .doubleQuoted ∨ quote = '\'' ∧ region = .singleQuoted

/-- A character that opens nothing and belongs to no mark of a comment. -/
def isOrdinary (c : Char) : Bool :=
  c != '"' && c != '\'' && c != '/' && c != '*' && depthChange c == 0

def marks : List Char := ['"', '\'', '/', '*', '(', '{', '[', ')', '}', ']']

theorem isOrdinary_of_class {p : Char → Bool} (hp : (marks.all fun d => !p d) = true) {c : Char}
    (h : p c) : isOrdinary c := by
  have hne : ∀ d ∈ marks, c ≠ d := by
    rintro d hd rfl
    have hpd := List.all_eq_true.mp hp c hd
    simp [h] at hpd
  simp only [marks, List.forall_mem_cons] at hne
  simp [isOrdinary, depthChange, hne]

theorem isOrdinary_of_isWordChar {c : Char} (h : isWordChar c) : isOrdinary c :=
  isOrdinary_of_class (by decide +kernel) h

theorem isOrdinary_of_isBlank {c : Char} (h : isBlank c) : isOrdinary c :=
  isOrdinary_of_class (by decide +kernel) h

theorem isOrdinary_of_isNumberChar {c : Char} (h : isNumberChar c) : isOrdinary c := by
  simp only [isNumberChar, Bool.or_eq_true, beq_iff_eq] at h
  obtain ((((h | rfl) | rfl) | rfl) | rfl) | rfl := h
  · exact isOrdinary_of_isWordChar (isWordChar_of_isAsciiDigit h)
  all_goals decide

namespace Scan

@[simp] theorem run_nil (s : Scan) : s.run [] = s := rfl

@[simp] theorem run_cons (s : Scan) (c : Char) (cs : List Char) :
    s.run (c :: cs) = (s.step c).run cs := rfl

@[simp] theorem region_take (s : Scan) (c : Char) (r : Region) (k : Int32) :
    (s.take c r k).region = r := rfl

@[simp] theorem depth_take (s : Scan) (c : Char) (r : Region) (k : Int32) :
    (s.take c r k).depth = s.depth + k := rfl

@[simp] theorem last_take (s : Scan) (c : Char) (r : Region) (k : Int32) :
    (s.take c r k).last = some c := rfl

theorem useful_take (s : Scan) (c : Char) (r : Region) (k : Int32) :
    (s.take c r k).useful = s.useful + usefulIn [c] := by
  cases h : isBlank c <;> simp [take, usefulIn, h]

structure Counted (s : Scan) (text : List Char) (change : Int32) (region : Region) (t : Scan) :
    Prop where
  region : t.region = region
  depth : t.depth = s.depth + change
  useful : t.useful = s.useful + usefulIn text

theorem Counted.refl {s : Scan} {r : Region} (h : s.region = r) : Counted s [] 0 r s :=
  ⟨h, by simp, by simp [usefulIn]⟩

theorem Counted.step {s t : Scan} {c : Char} {cs : List Char} {r r' : Region} {k n : Int32}
    (hs : s.step c = s.take c r k) (h : Counted (s.step c) cs n r' t) :
    Counted s (c :: cs) (k + n) r' t := by
  rw [hs] at h
  refine ⟨h.region, ?_, ?_⟩
  · rw [h.depth, depth_take, Int32.add_assoc]
  · rw [h.useful, useful_take, usefulIn_cons c cs, Nat.add_assoc]

theorem step_ordinary {s : Scan} {c : Char} (hr : s.region = .code) (hc : isOrdinary c) :
    s.step c = s.take c .code 0 := by
  simp only [isOrdinary, Bool.and_eq_true, bne_iff_ne, beq_iff_eq] at hc
  simp [step, hr, hc]

theorem counted_ordinary {s : Scan} {cs : List Char} (hr : s.region = .code)
    (hc : ∀ c ∈ cs, isOrdinary c) : Counted s cs 0 .code (s.run cs) := by
  induction cs generalizing s with
  | nil => exact .refl hr
  | cons c cs ih =>
    have hs := step_ordinary hr (hc c (by simp))
    have ht := ih (s := s.step c) (by rw [hs, region_take]) fun d hd => hc d (by simp [hd])
    exact Counted.step hs ht

theorem last_run_ordinary {s : Scan} {c : Char} {cs : List Char} (hs : (s.step c).last = some c)
    (hr : (s.step c).region = .code) (hc : ∀ d ∈ c :: cs, isOrdinary d) :
    (s.run (c :: cs)).last ≠ some '/' := by
  induction cs generalizing s c with
  | nil =>
    rw [run_cons, run_nil, hs]
    rintro ⟨⟩
    exact absurd (hc '/' (by simp)) (by decide)
  | cons d cs ih =>
    have hd := step_ordinary hr (hc d (by simp))
    exact ih (by rw [hd, last_take]) (by rw [hd, region_take]) fun e he => hc e (by simp_all)

section

variable {quote : Char} {r : Region}

theorem step_open {s : Scan} (hq : Quotes quote r) (hr : s.region = .code) :
    s.step quote = s.take quote r 0 := by
  obtain ⟨rfl, rfl⟩ | ⟨rfl, rfl⟩ := hq <;> simp [step, hr]

theorem step_quoted {s : Scan} (hq : Quotes quote r) (hr : s.region = r) (c : Char) :
    s.step c = s.take c (if c = quote then .code else r) 0 := by
  obtain ⟨rfl, rfl⟩ | ⟨rfl, rfl⟩ := hq <;> simp [step, hr]

theorem counted_doubled {s : Scan} (hq : Quotes quote r) (hr : s.region = r) (body : List Char) :
    Counted s (doubled quote body) 0 r (s.run (doubled quote body)) := by
  induction body generalizing s with
  | nil => exact .refl hr
  | cons c body ih =>
    have hs := step_quoted hq hr c
    by_cases hc : c = quote
    · -- the quote closes and at once opens again
      subst c
      have hopen := step_open (s := s.step quote) hq (by simp [hs])
      have ht := ih (s := (s.step quote).step quote) (by rw [hopen, region_take])
      rw [doubled_cons, if_pos rfl]
      exact Counted.step hs (Counted.step hopen ht)
    · have ht := ih (s := s.step c) (by simp [hs, hc])
      rw [doubled_cons, if_neg hc]
      exact Counted.step hs ht

theorem counted_enclosed {s : Scan} (hq : Quotes quote r) (hr : s.region = .code)
    (body : List Char) :
    Counted s (enclosed quote body) 0 .code (s.run (enclosed quote body)) ∧
      (s.run (enclosed quote body)).last = some quote := by
  have hopen := step_open hq hr
  have hb := counted_doubled (s := s.step quote) hq (by rw [hopen, region_take]) body
  have hclose := step_quoted hq hb.region quote
  rw [if_pos rfl] at hclose
  have hrun : s.run (enclosed quote body) = ((s.step quote).run (doubled quote body)).step quote := by
    rw [enclosed, run_cons, run_append, run_cons, run_nil]
  rw [hrun, hclose]
  refine ⟨⟨rfl, ?_, ?_⟩, rfl⟩
  · rw [depth_take, hb.depth, hopen, depth_take]
    simp
  · rw [useful_take, hb.useful, hopen, useful_take, enclosed, usefulIn_cons quote (_ ++ _),
      usefulIn_append]
    omega

theorem region_run_unclosed {s : Scan} (hq : Quotes quote r) (hr : s.region = r) {cs : List Char}
    (h : quotedBody? quote cs = none) : (s.run cs).region = r := by
  induction cs using quotedBody?.induct quote generalizing s with
  | case1 => exact hr
  | case2 => simp [quotedBody?] at h
  | case3 rest ih =>
    have hclose := step_quoted hq hr quote
    rw [if_pos rfl] at hclose
    have hopen := step_open (s := s.step quote) hq (by rw [hclose, region_take])
    rw [run_cons, run_cons]
    refine ih (by rw [hopen, region_take]) ?_
    simpa [quotedBody?] using h
  | case4 d rest hd => simp [quotedBody?, hd] at h
  | case5 d rest hd ih =>
    have hs := step_quoted hq hr d
    rw [quotedBody?.eq_def] at h
    exact ih (by simp [hs, hd]) (by simpa [hd] using h)

end

theorem run_lineComment {s : Scan} {cs : List Char} (hr : s.region = .lineComment)
    (hc : '\n' ∉ cs) :
    (s.run cs).region = .lineComment ∧ (s.run cs).depth = s.depth ∧ (s.run cs).useful = s.useful := by
  induction cs generalizing s with
  | nil => exact ⟨hr, rfl, rfl⟩
  | cons c cs ih =>
    have hn : c ≠ '\n' := fun h => hc (by simp [h])
    exact ih (s := s.step c) (by simp [step, hr, hn]) (fun h => hc (by simp [h])) |>.imp id fun h => by
      simpa [step, hr] using h

theorem step_blockComment {s : Scan} {c : Char} (hr : s.region = .blockComment)
    (h : s.last = some '*' → c ≠ '/') : s.step c = { s with last := some c } := by
  simp only [step, hr]
  exact if_neg fun hc => h hc.1 hc.2

/-- A block comment ends where the lexer ends it. The star of its opening has been forgotten. -/
theorem run_blockComment {s : Scan} {body rest : List Char} (hr : s.region = .blockComment)
    (hl : s.last = some '*' → (body ++ rest).head? ≠ some '/')
    (h : commentLength? (body ++ rest) = some body.length) :
    s.run body = { s with region := .code, last := none } := by
  induction body generalizing s with
  | nil =>
    have := two_le_of_commentLength? h
    simp at this
  | cons c body ih =>
    have hs := step_blockComment (c := c) hr fun he => by simpa using hl he
    rw [List.cons_append, commentLength?] at h
    split at h
    next hc =>
      obtain ⟨rfl, hd⟩ := hc
      obtain ⟨d, rfl⟩ : ∃ d, body = [d] := List.length_eq_one_iff.mp (by simpa using h.symm)
      cases hd
      rw [run_cons, hs]
      simp [step, hr]
    next hc =>
      have ht := ih (s := s.step c) (by rw [hs]; exact hr) (fun he => ?_) (by simpa using h)
      · rw [run_cons, ht, hs]
      · rw [hs] at he
        cases he
        exact fun hd => hc ⟨rfl, hd⟩

theorem region_run_blockComment {s : Scan} {cs : List Char} (hr : s.region = .blockComment)
    (hl : s.last = some '*' → cs.head? ≠ some '/') (h : commentLength? cs = none) :
    (s.run cs).region = .blockComment := by
  induction cs generalizing s with
  | nil => exact hr
  | cons c cs ih =>
    have hs := step_blockComment (c := c) hr fun he => by simpa using hl he
    rw [commentLength?] at h
    split at h
    next => simp at h
    next hc =>
      refine ih (s := s.step c) (by rw [hs]; exact hr) (fun he => ?_) (by simpa using h)
      rw [hs] at he
      cases he
      exact fun hd => hc ⟨rfl, hd⟩

end Scan

def isPlain (c : Char) : Bool := c != '"' && c != '\'' && c != '/' && c != '*'

def Plain (cs : List Char) : Prop := ∀ c ∈ cs, isPlain c

theorem Plain.append {cs ds : List Char} (h : Plain cs) (hd : Plain ds) : Plain (cs ++ ds) := by
  intro c hc
  obtain hc | hc := List.mem_append.mp hc
  · exact h c hc
  · exact hd c hc

theorem plain_of_isOrdinary {cs : List Char} (h : ∀ c ∈ cs, isOrdinary c) : Plain cs := by
  intro c hc
  have hord := h c hc
  rw [isOrdinary, Bool.and_eq_true] at hord
  exact hord.1

theorem Plain.run {cs : List Char} (h : Plain cs) {t : Scan} (ht : t.region = .code)
    (hl : t.last ≠ some '/') : (t.run cs).region = .code ∧ (t.run cs).last ≠ some '/' := by
  induction cs generalizing t with
  | nil => exact ⟨ht, hl⟩
  | cons c cs ih =>
    obtain ⟨hc, hcs⟩ := List.forall_mem_cons.mp h
    simp only [isPlain, Bool.and_eq_true, bne_iff_ne] at hc
    obtain ⟨⟨⟨hdouble, hsingle⟩, hslash⟩, hstar⟩ := hc
    have hstep : t.step c = t.take c .code (depthChange c) := by
      simp [Scan.step, ht, hdouble, hsingle, hslash, hstar]
    rw [Scan.run_cons, hstep]
    exact ih hcs rfl (by simpa using hslash)

namespace Scan

/-- No slash has been read that could open a comment. -/
def Fresh (s : Scan) : Prop := s.region = .code → s.last ≠ some '/'

/-- What a scan can come to by one character: it stays in a comment or leaves one, it completes the
mark that opens a comment, or it takes the character as one outside of comments. -/
inductive Stepped (s : Scan) (c : Char) : Scan → Prop where
  | inside {t} : s.region.isComment → t.depth = s.depth → t.useful = s.useful → t.Fresh →
      Stepped s c t
  | opened {r last} : s.region = .code → s.last = some '/' → r.isComment →
      Stepped s c (s.beginComment r last)
  | taken {r change} : s.region.isComment = false → r.isComment = false →
      change = 0 ∨ change = depthChange c → Stepped s c (s.take c r change)

theorem fresh_of_isComment {s : Scan} (h : s.region.isComment) : s.Fresh := by
  intro hcode
  rw [hcode] at h
  cases h

theorem stepped (s : Scan) (c : Char) : Stepped s c (s.step c) := by
  unfold step
  split
  next hr =>
    refine .inside (by rw [hr]; rfl) rfl rfl fun hcode hl => ?_
    -- only a line break leaves the comment
    obtain rfl : c = '/' := Option.some.inj hl
    cases hcode
  next hr =>
    have hc : s.region.isComment := by rw [hr]; rfl
    split
    · exact .inside hc rfl rfl nofun
    · exact .inside hc rfl rfl (fresh_of_isComment hc)
  next hr => exact .taken (by rw [hr]; rfl) (by split <;> rfl) (.inl rfl)
  next hr => exact .taken (by rw [hr]; rfl) (by split <;> rfl) (.inl rfl)
  next hr =>
    have hc : s.region.isComment = false := by rw [hr]; rfl
    split
    next hl => exact .opened hr hl.1 rfl
    next =>
      split
      next hl => exact .opened hr hl.1 rfl
      next =>
        split
        · exact .taken hc rfl (.inl rfl)
        · split
          · exact .taken hc rfl (.inl rfl)
          · exact .taken hc rfl (.inr rfl)

end Scan

theorem usefulIn_slash : usefulIn ['/'] = 1 := by decide

/-- Something has been counted that the start of a comment does not take back. -/
structure Marked (t : Scan) : Prop where
  useful : 0 < t.useful
  slash : t.region = .code → t.last = some '/' → 1 < t.useful

theorem Marked.step {t : Scan} (h : Marked t) (c : Char) : Marked (t.step c) := by
  have hpos := h.useful
  have hs := t.stepped c
  generalize t.step c = u at hs ⊢
  cases hs with
  | inside _ _ huseful hfresh =>
    exact ⟨huseful ▸ hpos, fun hcode hl => absurd hl (hfresh hcode)⟩
  | opened hcode hl hr =>
    refine ⟨Nat.sub_pos_of_lt (h.slash hcode hl), fun hcode hl => ?_⟩
    exact absurd hl (Scan.fresh_of_isComment hr hcode)
  | taken =>
    refine ⟨?_, fun _ hl => ?_⟩
    · rw [Scan.useful_take]
      omega
    · obtain rfl : c = '/' := Option.some.inj hl
      rw [Scan.useful_take, usefulIn_slash]
      omega

theorem Marked.run {t : Scan} (h : Marked t) (cs : List Char) : Marked (t.run cs) := by
  induction cs generalizing t with
  | nil => exact h
  | cons c cs ih => exact ih (h.step c)

theorem code_of_close {t : Scan} (h : (t.step ')').region = .code) : t.region = .code := by
  cases hr : t.region <;> simp_all [Scan.step, Scan.take]

end FormulaShell.Script
