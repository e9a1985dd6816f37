import FormulaShell.Proofs.Script.Scan

namespace FormulaShell.Script

/-- The mark that opens a region and the one that closes it. -/
structure Delimiters where
  opening : List Char
  closing : List Char
  region : Region
  deriving DecidableEq

def delimiters : List Delimiters :=
  [⟨['"'], ['"'], .doubleQuoted⟩,
   ⟨['\''], ['\''], .singleQuoted⟩,
   ⟨['/', '/'], ['\n'], .lineComment⟩,
   ⟨['/', '*'], ['*', '/'], .blockComment⟩]

/-- A character of code, or a quotation or comment with its marks. -/
structure Stretch where
  region : Region
  text : List Char

/-- After the body the mark comes for the first time. -/
def FirstAfter (mark body : List Char) : Prop := ¬ mark <:+: (body ++ mark).dropLast

/-- A text falls into stretches. The end of the text ends the last one if nothing closes it. -/
inductive Stretches : List Char → List Stretch → Prop where
  | done : Stretches [] []
  | code {c rest ss} : (∀ d ∈ delimiters, ¬ d.opening <+: c :: rest) → Stretches rest ss →
      Stretches (c :: rest) (⟨.code, [c]⟩ :: ss)
  | closed {d body rest ss} : d ∈ delimiters → FirstAfter d.closing body → Stretches rest ss →
      Stretches (d.opening ++ (body ++ d.closing ++ rest))
        (⟨d.region, d.opening ++ (body ++ d.closing)⟩ :: ss)
  | unclosed {d body} : d ∈ delimiters → ¬ d.closing <:+: body →
      Stretches (d.opening ++ body) [⟨d.region, d.opening ++ body⟩]

section

variable {mark body body' rest rest' cs : List Char}

theorem FirstAfter.length_le (h : FirstAfter mark body)
    (heq : body ++ mark ++ rest = body' ++ mark ++ rest') : body.length ≤ body'.length := by
  by_contra hlt
  rw [Nat.not_le] at hlt
  have hprefix : body' ++ mark <+: (body ++ mark).dropLast := by
    have hto : (body ++ mark).dropLast <+: body' ++ mark ++ rest' :=
      heq ▸ (List.dropLast_prefix _).trans (List.prefix_append _ _)
    refine List.prefix_of_prefix_length_le (List.prefix_append _ rest') hto ?_
    simp only [List.length_append, List.length_dropLast]
    omega
  exact h ((List.infix_append' body' mark []).trans (by simpa using hprefix.isInfix))

theorem FirstAfter.body_eq (h : FirstAfter mark body) (h' : FirstAfter mark body')
    (heq : body ++ mark ++ rest = body' ++ mark ++ rest') : body = body' ∧ rest = rest' := by
  have hlength := Nat.le_antisymm (h.length_le heq) (h'.length_le heq.symm)
  rw [List.append_assoc, List.append_assoc] at heq
  obtain ⟨rfl, htail⟩ := List.append_inj heq hlength
  exact ⟨rfl, List.append_cancel_left htail⟩

theorem exists_firstAfter (hne : mark ≠ []) (h : mark <:+: cs) :
    ∃ body rest, cs = body ++ mark ++ rest ∧ FirstAfter mark body := by
  induction hn : cs.length using Nat.strongRecOn generalizing cs with
  | _ n ih =>
    obtain ⟨body, rest, rfl⟩ := h
    by_cases hfirst : FirstAfter mark body
    · exact ⟨body, rest, rfl, hfirst⟩
    · -- the mark comes earlier, in a shorter text
      have hearlier : mark <:+: (body ++ mark).dropLast := not_not.mp hfirst
      have hlt : (body ++ mark).dropLast.length < n := by
        have := List.length_pos_iff.mpr hne
        simp only [List.length_dropLast, List.length_append, ← hn]
        omega
      obtain ⟨body', rest', heq, hfirst'⟩ := ih _ hlt hearlier rfl
      obtain ⟨tail, htail⟩ := List.dropLast_prefix (body ++ mark)
      refine ⟨body', rest' ++ (tail ++ rest), ?_, hfirst'⟩
      rw [← htail, heq]
      simp only [List.append_assoc]

end

theorem opening_ne_nil {d : Delimiters} (hd : d ∈ delimiters) : d.opening ≠ [] := by
  revert d
  decide

theorem closing_ne_nil {d : Delimiters} (hd : d ∈ delimiters) : d.closing ≠ [] := by
  revert d
  decide

theorem opening_inj {d e : Delimiters} (hd : d ∈ delimiters) (he : e ∈ delimiters)
    {cs ds : List Char} (h : d.opening ++ cs = e.opening ++ ds) : d = e := by
  simp only [delimiters, List.mem_cons, List.not_mem_nil, or_false] at hd he
  rcases hd with rfl | rfl | rfl | rfl <;> rcases he with rfl | rfl | rfl | rfl <;> simp_all

namespace Stretches

variable {cs : List Char} {ss ss' : List Stretch}

theorem exists_stretches (cs : List Char) : ∃ ss, Stretches cs ss := by
  induction hn : cs.length using Nat.strongRecOn generalizing cs with
  | _ n ih =>
    subst hn
    by_cases hopen : ∃ d ∈ delimiters, d.opening <+: cs
    · obtain ⟨d, hd, tail, rfl⟩ := hopen
      have hpos := List.length_pos_iff.mpr (opening_ne_nil hd)
      by_cases hclose : d.closing <:+: tail
      · obtain ⟨body, rest, rfl, hfirst⟩ := exists_firstAfter (closing_ne_nil hd) hclose
        obtain ⟨ss, hss⟩ := ih rest.length (by simp only [List.length_append]; omega) rest rfl
        exact ⟨_, .closed hd hfirst hss⟩
      · exact ⟨_, .unclosed hd hclose⟩
    · cases cs with
      | nil => exact ⟨[], .done⟩
      | cons c rest =>
        obtain ⟨ss, hss⟩ := ih rest.length (Nat.lt_succ_self _) rest rfl
        exact ⟨_, .code (fun d hd hprefix => hopen ⟨d, hd, hprefix⟩) hss⟩

theorem eq_nil (h : Stretches [] ss) : ss = [] := by
  generalize hcs : ([] : List Char) = cs at h
  cases h with
  | done => rfl
  | code => cases hcs
  | closed hd => simp [opening_ne_nil hd] at hcs
  | unclosed hd => simp [opening_ne_nil hd] at hcs

theorem of_opening {d : Delimiters} (hd : d ∈ delimiters) {tail : List Char}
    (h : Stretches (d.opening ++ tail) ss) :
    (∃ body rest more, tail = body ++ d.closing ++ rest ∧ FirstAfter d.closing body ∧
      Stretches rest more ∧ ss = ⟨d.region, d.opening ++ (body ++ d.closing)⟩ :: more) ∨
    (¬ d.closing <:+: tail ∧ ss = [⟨d.region, d.opening ++ tail⟩]) := by
  generalize hcs : d.opening ++ tail = cs at h
  cases h with
  | done => simp [opening_ne_nil hd] at hcs
  | code hno => exact absurd ⟨tail, hcs⟩ (hno d hd)
  | closed he hfirst hrest =>
    obtain rfl := opening_inj hd he hcs
    obtain rfl := List.append_cancel_left hcs
    exact .inl ⟨_, _, _, rfl, hfirst, hrest, rfl⟩
  | unclosed he hno =>
    obtain rfl := opening_inj hd he hcs
    obtain rfl := List.append_cancel_left hcs
    exact .inr ⟨hno, rfl⟩

theorem eq (h : Stretches cs ss) (h' : Stretches cs ss') : ss = ss' := by
  induction h generalizing ss' with
  | done => exact h'.eq_nil.symm
  | @code c rest ss hno _ ih =>
    generalize hcs : c :: rest = cs at h'
    cases h' with
    | done => cases hcs
    | code _ hrest =>
      obtain ⟨rfl, rfl⟩ := List.cons.inj hcs
      rw [ih hrest]
    | closed hd => exact absurd ⟨_, hcs.symm⟩ (hno _ hd)
    | unclosed hd => exact absurd ⟨_, hcs.symm⟩ (hno _ hd)
  | @closed d body rest ss hd hfirst _ ih =>
    obtain ⟨body', rest', more, heq, hfirst', hrest, rfl⟩ | ⟨hno, -⟩ := h'.of_opening hd
    · obtain ⟨rfl, rfl⟩ := hfirst.body_eq hfirst' heq
      rw [ih hrest]
    · exact absurd (List.infix_append body d.closing rest) hno
  | @unclosed d body hd hno =>
    obtain ⟨body', rest', more, rfl, -⟩ | ⟨-, rfl⟩ := h'.of_opening hd
    · exact absurd (List.infix_append body' d.closing rest') hno
    · rfl

end Stretches

def placed (ss : List Stretch) : List (Char × Region) :=
  ss.flatMap fun s => s.text.map (·, s.region)

/-- The characters that no comment holds. -/
def outside (cs : List (Char × Region)) : List Char :=
  (cs.filter fun p => !p.2.isComment).map Prod.fst

theorem placed_cons (s : Stretch) (ss : List Stretch) :
    placed (s :: ss) = s.text.map (·, s.region) ++ placed ss := rfl

theorem outside_append (xs ys : List (Char × Region)) :
    outside (xs ++ ys) = outside xs ++ outside ys := by
  rw [outside, List.filter_append, List.map_append]
  rfl

def Region.kept (r : Region) (cs : List Char) : List Char := if r.isComment then [] else cs

theorem outside_map (r : Region) (cs : List Char) : outside (cs.map (·, r)) = r.kept cs := by
  induction cs with
  | nil => simp [outside, Region.kept]
  | cons c cs ih =>
    rw [List.map_cons, ← List.singleton_append, outside_append, ih]
    cases h : r.isComment <;> simp [outside, Region.kept, h]

section

variable (r : Region) (xs ys : List Char) (ss : List Stretch)

theorem outside_take_within :
    outside ((placed (⟨r, xs ++ ys⟩ :: ss)).take xs.length) = r.kept xs := by
  rw [placed_cons, List.map_append, List.append_assoc, List.take_left' (List.length_map _),
    outside_map]

theorem outside_take_past :
    outside ((placed (⟨r, xs⟩ :: ss)).take (xs ++ ys).length) =
      r.kept xs ++ outside ((placed ss).take ys.length) := by
  have hlength : (xs ++ ys).length = (xs.map (·, r)).length + ys.length := by simp
  rw [placed_cons, hlength, List.take_length_add_append, outside_append, outside_map]

end

theorem Stretches.map_fst_placed {cs : List Char} {ss : List Stretch} (h : Stretches cs ss) :
    (placed ss).map Prod.fst = cs := by
  have hchars (s : Stretch) : (s.text.map (·, s.region)).map Prod.fst = s.text :=
    List.map_map.trans (List.map_id _)
  induction h with
  | done => rfl
  | code _ _ ih => rw [placed_cons, List.map_append, hchars, ih]; rfl
  | closed _ _ _ ih => rw [placed_cons, List.map_append, hchars, ih, List.append_assoc]
  | unclosed => rw [placed_cons, List.map_append, hchars]; exact List.append_nil _

end FormulaShell.Script
