import FormulaShell.Proofs.Script.Classification
import Mathlib.Data.List.Infix

namespace FormulaShell.Formula

def TokenKind.closer? : TokenKind → Option TokenKind
  | leftParen => some rightParen
  | leftBrace => some rightBrace
  | leftBracket => some rightBracket
  | _ => none

/-- The closing brackets that are due after a token, innermost first. None may come out of place. -/
def dueAfter? (due : List TokenKind) (kind : TokenKind) : Option (List TokenKind) :=
  match kind.closer? with
  | some close => some (close :: due)
  | none =>
    if kind.closes then
      match due with
      | [] => none
      | close :: rest => if kind = close then some rest else none
    else some due

def due? (due : List TokenKind) (xs : List (TokenKind × String)) : Option (List TokenKind) :=
  xs.foldlM (fun due x => dueAfter? due x.1) due

/-- Every bracket is closed, in turn, by one of its kind. -/
def Nested (xs : List (TokenKind × String)) : Prop := due? [] xs = some []

instance (xs : List (TokenKind × String)) : Decidable (Nested xs) :=
  inferInstanceAs (Decidable (due? [] xs = some []))

def balance (xs : List (TokenKind × String)) : Int :=
  xs.foldr (fun x rest => x.1.bracket + rest) 0

section

variable {due after : List TokenKind} {xs : List (TokenKind × String)} {kind : TokenKind}

theorem balance_cons (x : TokenKind × String) (xs : List (TokenKind × String)) :
    balance (x :: xs) = x.1.bracket + balance xs := rfl

theorem balance_singleton (x : TokenKind × String) : balance [x] = x.1.bracket :=
  Int.add_zero _

theorem due?_cons (due : List TokenKind) (x : TokenKind × String)
    (xs : List (TokenKind × String)) :
    due? due (x :: xs) = (dueAfter? due x.1).bind fun after => due? after xs := rfl

theorem due?_append (due : List TokenKind) (xs ys : List (TokenKind × String)) :
    due? due (xs ++ ys) = (due? due xs).bind fun after => due? after ys :=
  List.foldlM_append

theorem dueAfter?_cases (kind : TokenKind) :
    (∃ close, kind.bracket = 1 ∧ ∀ due, dueAfter? due kind = some (close :: due)) ∨
    (kind.bracket = -1 ∧ dueAfter? [] kind = none ∧
      ∀ close rest, dueAfter? (close :: rest) kind = if kind = close then some rest else none) ∨
    (kind.bracket = 0 ∧ ∀ due, dueAfter? due kind = some due) := by
  cases kind with
  | leftParen | leftBrace | leftBracket => exact .inl ⟨_, rfl, fun _ => rfl⟩
  | rightParen | rightBrace | rightBracket => exact .inr (.inl ⟨rfl, rfl, fun _ _ => rfl⟩)
  | _ => exact .inr (.inr ⟨rfl, fun _ => rfl⟩)

theorem length_of_dueAfter? (h : dueAfter? due kind = some after) :
    (after.length : Int) = due.length + kind.bracket := by
  obtain ⟨close, hone, hopen⟩ | ⟨hone, hnil, hclose⟩ | ⟨hzero, hneither⟩ := dueAfter?_cases kind
  · rw [hopen] at h
    rw [← Option.some.inj h, hone, List.length_cons, Int.natCast_succ]
  · cases due with
    | nil =>
      rw [hnil] at h
      cases h
    | cons close rest =>
      rw [hclose] at h
      split at h
      · rw [← Option.some.inj h, hone, List.length_cons]
        omega
      · cases h
  · rw [hneither] at h
    rw [← Option.some.inj h, hzero, Int.add_zero]

theorem length_of_due? (h : due? due xs = some after) :
    (after.length : Int) = due.length + balance xs := by
  induction xs generalizing due with
  | nil =>
    obtain rfl : due = after := Option.some.inj h
    exact (Int.add_zero _).symm
  | cons x xs ih =>
    rw [due?_cons] at h
    obtain ⟨mid, hmid, hafter⟩ := Option.bind_eq_some_iff.mp h
    rw [ih hafter, length_of_dueAfter? hmid, balance_cons, Int.add_assoc]

theorem dueAfter?_frame (h : 0 ≤ due.length + kind.bracket) (outer : List TokenKind) :
    dueAfter? (due ++ outer) kind = (dueAfter? due kind).map (· ++ outer) := by
  obtain ⟨close, -, hopen⟩ | ⟨hone, hnil, hclose⟩ | ⟨-, hneither⟩ := dueAfter?_cases kind
  · rw [hopen, hopen]
    rfl
  · cases due with
    | nil => simp [hone] at h
    | cons close rest =>
      rw [List.cons_append, hclose, hclose]
      split <;> rfl
  · rw [hneither, hneither]
    rfl

theorem due?_frame (h : ∀ us, us <+: xs → 0 ≤ due.length + balance us) (outer : List TokenKind) :
    due? (due ++ outer) xs = (due? due xs).map (· ++ outer) := by
  induction xs generalizing due with
  | nil => rfl
  | cons x xs ih =>
    have hfirst := h [x] ((List.prefix_cons_inj x).mpr (List.nil_prefix))
    rw [balance_singleton] at hfirst
    rw [due?_cons, due?_cons, dueAfter?_frame hfirst, Option.map_bind, Option.bind_map]
    refine Option.bind_congr fun mid hmid => ?_
    refine ih fun us hus => ?_
    have hcons := h (x :: us) ((List.prefix_cons_inj x).mpr hus)
    rw [balance_cons] at hcons
    rw [length_of_dueAfter? hmid]
    omega

theorem nested_iff_of_closed {close : TokenKind} {value : String}
    (h : due? [close] (xs ++ [(close, value)]) = some []) :
    Nested xs ↔ ∀ us, us <+: xs → 0 ≤ balance us := by
  constructor
  · rintro hnested us ⟨vs, rfl⟩
    rw [Nested, due?_append] at hnested
    obtain ⟨after, hafter, -⟩ := Option.bind_eq_some_iff.mp hnested
    have hlen := length_of_due? hafter
    rw [List.length_nil] at hlen
    omega
  -- The bracket from outside stays due all along, so nothing else is due before the last one.
  · intro hprefix
    have hframe : due? ([] ++ [close]) xs = (due? [] xs).map (· ++ [close]) :=
      due?_frame (fun us hus => by simpa using hprefix us hus) [close]
    rw [List.nil_append] at hframe
    rw [due?_append, hframe] at h
    obtain ⟨_, hmap, hclose⟩ := Option.bind_eq_some_iff.mp h
    obtain ⟨after, hafter, rfl⟩ := Option.map_eq_some_iff.mp hmap
    have hlen := length_of_due? hclose
    have hge : -1 ≤ close.bracket := by
      obtain ⟨_, hone, -⟩ | ⟨hone, -⟩ | ⟨hzero, -⟩ := dueAfter?_cases close <;> omega
    rw [balance_singleton, List.length_append, List.length_nil, List.length_singleton] at hlen
    dsimp only at hlen
    have hnone : after.length = 0 := by omega
    rw [Nested, hafter, List.length_eq_zero_iff.mp hnone]

end

end FormulaShell.Formula

namespace FormulaShell.Script

open FormulaShell.Text FormulaShell.Formula

theorem contentsOf_cons (c : Char) (cs : List Char) :
    contentsOf (c :: cs) =
      match lexeme c cs with
      | .error _ => none
      | .ok l => (contentsOf (cs.drop l.more)).map (l.token.toList ++ ·) := by
  rw [contentsOf, contentsFrom_cons]
  cases lexeme c cs with
  | error fault => rfl
  | ok l => exact congrArg (Option.map _) (contentsFrom_eq ..)

theorem contentsOf_symbol {c : Char} {kind : TokenKind} (hk : symbol? c = some kind)
    (hc : c ∉ ['/', '<', '>', '&', '|']) (rest : List Char) :
    contentsOf (c :: rest) = (contentsOf rest).map ((kind, String.singleton c) :: ·) :=
  contentsOf_reads (reads_symbol hk hc rest)

theorem lexeme_of_isWordChar {c : Char} (hc : isWordChar c = true) (cs : List Char) :
    lexeme c cs =
      if isAsciiDigit c then
        .ok ⟨numberLength cs, some (.number, String.ofList (c :: cs.take (numberLength cs)))⟩
      else if isWordStart c then
        let word := String.ofList (c :: cs.takeWhile isWordChar)
        .ok ⟨(cs.takeWhile isWordChar).length, some (wordKind word, word)⟩
      else .error (.unexpected c) := by
  obtain ⟨hsymbol, hpair, hdouble, hsingle, hslash⟩ := symbols_of_isWordChar hc
  rw [lexeme, if_neg (by simp [isBlank_eq_false_of_isWordChar hc]), if_neg (by simp [hslash]),
    if_neg (by simp [hslash]), hpair]
  simp [hsymbol, hdouble, hsingle]

section

variable {c : Char} {cs : List Char} (hc : isWordChar c = true) (hcs : ∀ d ∈ cs, isWordChar d)
include hc hcs

theorem lexeme_word_append {b : Char} (hb : isWordChar b = false) (hn : isNumberChar b = false)
    (w : List Char) : lexeme c (cs ++ b :: w) = lexeme c cs := by
  have hword : (cs ++ b :: w).takeWhile isWordChar = cs.takeWhile isWordChar := by
    rw [takeWhile_append_of_head hcs fun d hd => by cases hd; exact hb,
      List.takeWhile_eq_self_iff.mpr hcs]
  rw [lexeme_of_isWordChar hc, lexeme_of_isWordChar hc, numberLength_append_cons hn, hword,
    List.take_append_of_le_length (numberLength_le cs)]

theorem exists_of_lexeme_word {l : Lexeme} (h : lexeme c cs = .ok l) :
    l.more ≤ cs.length ∧ ∃ t, l.token = some t ∧ ∀ due, dueAfter? due t.1 = some due := by
  rw [lexeme_of_isWordChar hc, List.takeWhile_eq_self_iff.mpr hcs] at h
  split at h
  · obtain rfl := Except.ok.inj h
    exact ⟨numberLength_le cs, _, rfl, fun due => rfl⟩
  · split at h
    · obtain rfl := Except.ok.inj h
      refine ⟨Nat.le_refl _, _, rfl, fun due => ?_⟩
      dsimp only
      unfold wordKind
      split_ifs <;> rfl
    · cases h

end

section

variable {name : List Char} (hname : ∀ c ∈ name, isWordChar c)
include hname

theorem contentsOf_word_append {b : Char} (hb : isWordChar b = false) (hn : isNumberChar b = false)
    (w : List Char) :
    contentsOf (name ++ b :: w) =
      (contentsOf name).bind fun xs => (contentsOf (b :: w)).map (xs ++ ·) := by
  induction hlen : name.length using Nat.strongRecOn generalizing name with
  | _ n ih =>
    subst hlen
    cases name with
    | nil => simp
    | cons c cs =>
      obtain ⟨hc, hcs⟩ := List.forall_mem_cons.mp hname
      rw [List.cons_append, contentsOf_cons, contentsOf_cons, lexeme_word_append hc hcs hb hn]
      cases hl : lexeme c cs with
      | error fault => rfl
      | ok l =>
        obtain ⟨hle, -⟩ := exists_of_lexeme_word hc hcs hl
        have hlt : (cs.drop l.more).length < (c :: cs).length := by
          rw [List.length_drop, List.length_cons]
          omega
        dsimp only
        rw [List.drop_append_of_le_length hle,
          ih _ hlt (fun d hd => hcs d (List.mem_of_mem_drop hd)) rfl]
        cases contentsOf (cs.drop l.more) with
        | none => rfl
        | some xs => cases contentsOf (b :: w) <;> simp

theorem contentsOf_word_blanks {b : Char} (hb : isWordChar b = false) (hn : isNumberChar b = false)
    {rest w : List Char} (h : trimStart rest = b :: w) :
    contentsOf (name ++ rest) =
      (contentsOf name).bind fun xs => (contentsOf (b :: w)).map (xs ++ ·) := by
  obtain ⟨ws, hws, hrest⟩ := exists_trimStart rest
  rw [h] at hrest
  rw [hrest]
  cases ws with
  | nil => exact contentsOf_word_append hname hb hn w
  | cons a ws =>
    obtain ⟨ha, hws⟩ := List.forall_mem_cons.mp hws
    have hstop := isStop_of_isBlank ha
    rw [List.cons_append, contentsOf_word_append hname (isWordChar_of_isStop hstop)
      (isNumberChar_of_isStop hstop), contentsOf_blank ha, contentsOf_blanks_append hws]

theorem due?_of_word {xs : List (TokenKind × String)} (hxs : contentsOf name = some xs)
    (due : List TokenKind) : due? due xs = some due := by
  induction hlen : name.length using Nat.strongRecOn generalizing name xs with
  | _ n ih =>
    subst hlen
    cases name with
    | nil =>
      rw [contentsOf_nil] at hxs
      rw [← Option.some.inj hxs]
      rfl
    | cons c cs =>
      obtain ⟨hc, hcs⟩ := List.forall_mem_cons.mp hname
      rw [contentsOf_cons] at hxs
      cases hl : lexeme c cs with
      | error fault =>
        rw [hl] at hxs
        cases hxs
      | ok l =>
        obtain ⟨-, t, ht, hdue⟩ := exists_of_lexeme_word hc hcs hl
        rw [hl] at hxs
        obtain ⟨ys, hys, rfl⟩ := Option.map_eq_some_iff.mp hxs
        have hlt : (cs.drop l.more).length < (c :: cs).length := by
          rw [List.length_drop, List.length_cons]
          omega
        rw [ht, Option.toList_some, List.singleton_append, due?_cons, hdue, Option.bind_some]
        exact ih _ hlt (fun d hd => hcs d (List.mem_of_mem_drop hd)) hys rfl

end

theorem contentsOf_append_in_comment {b : Char} (hb : isStop b) (hn : b ≠ '\n') {s : Scan}
    {cs : List Char} (hs : s.Between (cs ++ [b])) (hr : (s.run cs).region = .lineComment) :
    contentsOf (cs ++ [b]) = contentsOf cs := by
  induction hlen : cs.length using Nat.strongRecOn generalizing s cs with
  | _ n ih =>
    subst hlen
    cases cs with
    | nil =>
      obtain ⟨hcode, -⟩ := code_of_between hs hn
      rw [Scan.run_nil, hcode] at hr
      cases hr
    | cons c cs =>
      cases hl : lexeme c cs with
      | error fault =>
        rw [contentsOf_error hl, List.cons_append,
          contentsOf_error (lexeme_append_stop hb [] hl (.inl rfl))]
      | ok l =>
        obtain ⟨tail, rest, rfl, -, hread, hblank⟩ := lexeme_reads hl
        rw [← List.cons_append] at hs hr ⊢
        by_cases hline : rest = [] ∧ ∃ body, c :: tail = '/' :: '/' :: body
        · obtain ⟨rfl, body, htext⟩ := hline
          rw [htext] at hread
          obtain ⟨hbody, ht⟩ := reads_slashes hread
          rw [ht] at hread
          have hlong : Reads ('/' :: '/' :: (body ++ [b])) [] none :=
            .lineComment (by simp [hbody, hn.symm]) (by simp)
          have hwith := contentsOf_trivia hlong
          have hwithout := contentsOf_trivia hread
          simp only [List.append_nil, htext, List.cons_append] at hwith hwithout ⊢
          rw [hwith, hwithout]
        · have hread' : Reads (c :: tail) (rest ++ [b]) l.token :=
            hread.append_stop hb [] fun hrest hbody => absurd ⟨hrest, hbody⟩ hline
          have hhead : l.token ≠ none → ∀ d ∈ (c :: tail).head?, isBlank d = false := by
            intro ht d hd
            obtain rfl : c = d := by simpa using hd
            exact hblank ht
          rw [List.append_assoc] at hs
          have hlt : rest.length < (c :: (tail ++ rest)).length := by
            rw [List.length_cons, List.length_append]
            omega
          rw [List.append_assoc, contentsOf_reads hread', contentsOf_reads hread,
            ih _ hlt (between_of_reads hread' hhead hs) (by simpa [Scan.run_append] using hr) rfl]

def setTokens (name expression : List (TokenKind × String)) : List (TokenKind × String) :=
  (.name, "Set") :: (.leftParen, "(") :: (name ++ (.comma, ",") :: expression)

section

variable {cs name e : List Char}

theorem contentsOf_assignmentHead? {rest : List Char} (h : assignmentHead? cs = some (name, rest)) :
    (∀ c ∈ name, isWordChar c) ∧
      contentsOf cs = (contentsOf name).bind fun xs =>
        (contentsOf rest).map fun ys => setTokens xs ys := by
  obtain ⟨tail, inside, after, rfl, hopen, hword, hcomma⟩ := exists_of_assignmentHead? h
  obtain ⟨hname, hinside⟩ := exists_word? hword
  have hlex : contentsOf ['S', 'e', 't'] = some [(.name, "Set")] := by decide +kernel
  have hopened := contentsOf_word_blanks isWordChar_of_mem_set (by decide +kernel) (by decide) hopen
  have hnamed := contentsOf_word_blanks hname (by decide +kernel) (by decide) hcomma
  obtain ⟨ws, hws, hblank⟩ := exists_trimStart inside
  refine ⟨hname, ?_⟩
  rw [hopened, hlex, contentsOf_symbol rfl (by decide), hblank, contentsOf_blanks_append hws,
    hinside, hnamed, contentsOf_symbol rfl (by decide)]
  cases contentsOf name with
  | none => rfl
  | some xs => cases contentsOf rest <;> rfl

end

theorem region_of_contentsOf {t : Scan} {cs : List Char} (ht : t.Between cs)
    (h : contentsOf cs ≠ none) :
    (t.run cs).region = .code ∨ (t.run cs).region = .lineComment := by
  cases hl : lexFrom .start cs with
  | error e => simp [contentsOf, contentsFrom, hl, Except.toOption] at h
  | ok ts =>
    obtain ⟨used, hused, hbetween, -⟩ := run_of_lexes (lexes_of_lexFrom hl) [] ht rfl
    rw [List.append_nil] at hused
    rw [hused]
    exact hbetween.region

theorem lineComment_of_close {t : Scan} (h : (t.step ')').region = .lineComment) :
    t.region = .lineComment := by
  cases hr : t.region <;> simp_all [Scan.step, Scan.take]

theorem contentsOf_closed {t : Scan} (ht : ∀ rest, t.Between rest) {e : List Char}
    (h : contentsOf (e ++ [')']) ≠ none) :
    contentsOf (e ++ [')']) = (contentsOf e).map
      (· ++ if (t.run (e ++ [')'])).region = .code then [(.rightParen, ")")] else []) := by
  have hclose : contentsOf [')'] = some [(.rightParen, ")")] := by decide +kernel
  by_cases hcode : (t.run (e ++ [')'])).region = .code
  · have hbefore : (t.run e).region = .code := by
      rw [Scan.run_append] at hcode
      exact code_of_close hcode
    rw [if_pos hcode, contentsOf_append_stop (by decide) (ht e) (.inl hbefore), hclose]
    cases contentsOf e <;> rfl
  · have hline := (region_of_contentsOf (ht _) h).resolve_left hcode
    have hbefore : (t.run e).region = .lineComment := by
      rw [Scan.run_append] at hline
      exact lineComment_of_close hline
    rw [if_neg hcode, contentsOf_append_in_comment (by decide) (by decide) (ht _) hbefore]
    simp

theorem exists_of_classify {source : List Char} {name expression : String}
    (h : classify source = .assignment name expression) :
    ∃ e, assignmentHead? (trim source) = some (name.toList, e ++ [')']) ∧
      expression = String.ofList (trim e) := by
  by_cases hz : (scan (trim source)).useful = 0
  · rw [classify, if_pos hz] at h
    cases h
  · rw [classify_of_useful hz] at h
    cases ha : assignment? (trim source) with
    | none =>
      rw [ha] at h
      have hnot : (Statement.assignment name expression).isAssignment = false :=
        h ▸ isAssignment_otherwise (trim source)
      cases hnot
    | some p =>
      rw [ha] at h
      obtain ⟨rfl, rfl⟩ := Statement.assignment.inj h
      rw [assignment?_eq] at ha
      obtain ⟨⟨word, rest⟩, hhead, hrest⟩ := Option.bind_eq_some_iff.mp ha
      obtain ⟨e, he, rfl⟩ := Option.map_eq_some_iff.mp hrest
      exact ⟨e, by rw [String.toList_ofList, hhead, ← beforeClose?_eq_some.mp he], rfl⟩

theorem exists_contents_of_classify {source name expression : String}
    {xs : List (TokenKind × String)} (hlex : contents? source = some xs)
    (h : classify source.toList = .assignment name expression) :
    ∃ ns es, contents? name = some ns ∧ (∀ due, due? due ns = some due) ∧
      contents? expression = some es ∧
      xs = setTokens ns (es ++
        if (scan (trim source.toList)).region = .code then [(.rightParen, ")")] else []) := by
  obtain ⟨e, hhead, rfl⟩ := exists_of_classify h
  obtain ⟨pre, hpre, htext⟩ := exists_assignmentHead? hhead
  obtain ⟨hword, hcontents⟩ := contentsOf_assignmentHead? hhead
  have hregion : (scan (trim source.toList)).region =
      ((Scan.start.run ('S' :: pre)).run (e ++ [')'])).region := by
    rw [htext, scan, Scan.run_append]
  rw [contentsOf_trim, ← contents?_ofList, String.ofList_toList, hlex] at hcontents
  obtain ⟨ns, hns, hrest⟩ := Option.bind_eq_some_iff.mp hcontents.symm
  obtain ⟨ys, hys, rfl⟩ := Option.map_eq_some_iff.mp hrest
  rw [contentsOf_closed hpre.between (by simp [hys]), ← hregion] at hys
  obtain ⟨es, hes, rfl⟩ := Option.map_eq_some_iff.mp hys
  refine ⟨ns, es, ?_, due?_of_word hword hns, ?_, rfl⟩
  · rw [← hns, ← contents?_ofList, String.ofList_toList]
  · rw [contents?_ofList, contentsOf_trim, hes]

/-- The text is made of the tokens of `Set`, of the name and of the expression, and the parenthesis
at its end is the one that closes what the first one opens. -/
def Wraps (source name expression : String) : Prop :=
  ∃ xs ys, contents? name = some xs ∧ contents? expression = some ys ∧
    contents? source = some (setTokens xs (ys ++ [(.rightParen, ")")])) ∧ Nested ys

/-- A text that is classified as an assignment wraps its expression exactly if it does not end in a
comment, and nothing in the expression closes more brackets than have been opened in it. -/
theorem wraps_iff_of_classify {source name expression : String} {xs : List (TokenKind × String)}
    (hlex : contents? source = some xs) (hnested : Nested xs)
    (h : classify source.toList = .assignment name expression) :
    ∃ ns es, contents? name = some ns ∧ contents? expression = some es ∧
      xs = setTokens ns (es ++
        if (scan (trim source.toList)).region = .code then [(.rightParen, ")")] else []) ∧
      (Wraps source name expression ↔
        (scan (trim source.toList)).region = .code ∧ ∀ us, us <+: es → 0 ≤ balance us) := by
  obtain ⟨ns, es, hns, hdue, hes, rfl⟩ := exists_contents_of_classify hlex h
  refine ⟨ns, es, hns, hes, rfl, ?_⟩
  have hopen (ys : List (TokenKind × String)) :
      due? [] (setTokens ns ys) = due? [.rightParen] ys := by
    change due? [.rightParen] (ns ++ (.comma, ",") :: ys) = _
    rw [due?_append, hdue]
    rfl
  rw [Nested, hopen] at hnested
  constructor
  · rintro ⟨ns', es', hns', hes', hsource, hes_nested⟩
    obtain rfl := Option.some.inj (hns.symm.trans hns')
    obtain rfl := Option.some.inj (hes.symm.trans hes')
    by_cases hcode : (scan (trim source.toList)).region = .code
    · rw [if_pos hcode] at hnested
      exact ⟨hcode, (nested_iff_of_closed hnested).mp hes_nested⟩
    · rw [if_neg hcode] at hlex
      have hlen := congrArg List.length (Option.some.inj (hlex.symm.trans hsource))
      simp [setTokens] at hlen
  · rintro ⟨hcode, hprefix⟩
    rw [if_pos hcode] at hnested hlex
    exact ⟨ns, es, hns, hes, hlex, (nested_iff_of_closed hnested).mpr hprefix⟩

theorem wraps_set_of_negation : Wraps "Set( total ,\n-(1))\n" "total" "-(1)" := by
  have hlex : contents? "Set( total ,\n-(1))\n" = some (setTokens [(.name, "total")]
      [(.minus, "-"), (.leftParen, "("), (.number, "1"), (.rightParen, ")"),
        (.rightParen, ")")]) := by
    decide +kernel
  have hes : contents? "-(1)" =
      some [(.minus, "-"), (.leftParen, "("), (.number, "1"), (.rightParen, ")")] := by
    decide +kernel
  have hclassify : classify "Set( total ,\n-(1))\n".toList = .assignment "total" "-(1)" := by
    decide +kernel
  obtain ⟨ns, es, -, hes', -, hwraps⟩ := wraps_iff_of_classify hlex (by decide) hclassify
  obtain rfl := Option.some.inj (hes.symm.trans hes')
  refine hwraps.mpr ⟨by decide +kernel, fun us hus => ?_⟩
  have hall : ∀ us ∈ List.inits [(TokenKind.minus, "-"), (.leftParen, "("), (.number, "1"),
      (.rightParen, ")")], 0 ≤ balance us := by
    decide
  exact hall us ((List.mem_inits us _).mpr hus)

/-- The parenthesis at the end of the second of two assignments is taken for that of the first. -/
theorem not_wraps_set_set :
    (∃ xs, contents? "Set(x, 1); Set(y, 2)" = some xs ∧ Nested xs) ∧
      classify "Set(x, 1); Set(y, 2)".toList = .assignment "x" "1); Set(y, 2" ∧
      ¬ Wraps "Set(x, 1); Set(y, 2)" "x" "1); Set(y, 2" := by
  refine ⟨?_, by decide +kernel, ?_⟩
  · cases h : contents? "Set(x, 1); Set(y, 2)" with
    | none => exact absurd h (by decide +kernel)
    | some xs =>
      refine ⟨xs, rfl, ?_⟩
      have hn : (contents? "Set(x, 1); Set(y, 2)").all (fun xs => decide (Nested xs)) = true := by
        decide +kernel
      rw [h] at hn
      exact of_decide_eq_true hn
  · rintro ⟨ns, es, -, hes, -, hnested⟩
    have hn : (contents? "1); Set(y, 2").all (fun xs => !decide (Nested xs)) = true := by
      decide +kernel
    rw [hes] at hn
    simp [hnested] at hn

end FormulaShell.Script
