import FormulaShell.Proofs.Formula.Spacing

namespace FormulaShell.Text

/-- A place in a text, between what is left and right of it in its line. Above are whole lines, with
their line breaks, and below is what comes after the line, from its line break on. -/
structure Spot (source : String) where
  above : List Char
  left : List Char
  right : List Char
  below : List Char
  joined : source.toList = above ++ (left ++ (right ++ below))
  above_ends : ∀ c ∈ above.getLast?, c = '\n'
  below_starts : ∀ c ∈ below.head?, c = '\n'
  not_mem_left : '\n' ∉ left
  not_mem_right : '\n' ∉ right

namespace Spot

variable {source : String}

def position (s : Spot source) : Position where
  offset := (String.ofList (s.above ++ s.left)).utf8ByteSize
  line := 1 + s.above.count '\n'
  column := 1 + s.left.length

def line (s : Spot source) : String := String.ofList (s.left ++ s.right)

theorem takeWhile_line {xs ys : List Char} (hx : '\n' ∉ xs) (hy : ∀ c ∈ ys.head?, c = '\n') :
    (xs ++ ys).takeWhile (· != '\n') = xs :=
  takeWhile_append_of_head (fun _ hc => bne_iff_ne.mpr fun h => hx (h ▸ hc))
    fun c hc => by simp [hy c hc]

theorem dropWhile_line {xs ys : List Char} (hx : '\n' ∉ xs) (hy : ∀ c ∈ ys.head?, c = '\n') :
    (xs ++ ys).dropWhile (· != '\n') = ys :=
  dropWhile_append_of_head (fun _ hc => bne_iff_ne.mpr fun h => hx (h ▸ hc))
    fun c hc => by simp [hy c hc]

theorem exists_of_append {before after : List Char} (h : source.toList = before ++ after) :
    ∃ s : Spot source, s.above ++ s.left = before ∧ s.right ++ s.below = after := by
  have hbefore : (before.reverse.dropWhile (· != '\n')).reverse ++
      (before.reverse.takeWhile (· != '\n')).reverse = before := by
    rw [← List.reverse_append, List.takeWhile_append_dropWhile, List.reverse_reverse]
  have hafter : after.takeWhile (· != '\n') ++ after.dropWhile (· != '\n') = after :=
    List.takeWhile_append_dropWhile
  have hstop (cs : List Char) : ∀ c ∈ (cs.dropWhile (· != '\n')).head?, c = '\n' :=
    fun c hc => by simpa using Formula.head?_dropWhile (p := (· != '\n')) c hc
  have hfree (cs : List Char) : '\n' ∉ cs.takeWhile (· != '\n') :=
    fun hc => absurd (List.mem_takeWhile_imp hc) (by decide)
  refine ⟨⟨(before.reverse.dropWhile (· != '\n')).reverse,
    (before.reverse.takeWhile (· != '\n')).reverse, _, _, ?_, ?_, hstop after, ?_, hfree after⟩,
    hbefore, hafter⟩
  · rw [← List.append_assoc, hbefore, hafter, h]
  · rw [List.getLast?_reverse]
    exact hstop before.reverse
  · rw [List.mem_reverse]
    exact hfree before.reverse

variable (s : Spot source)

theorem position_eq : s.position = placeAfter (s.above ++ s.left) := by
  have hcount : (s.above ++ s.left).count '\n' = s.above.count '\n' := by
    rw [List.count_append, List.count_eq_zero.mpr s.not_mem_left, Nat.add_zero]
  have hcolumn : (s.above ++ s.left).reverse.takeWhile (· != '\n') = s.left.reverse := by
    rw [List.reverse_append]
    refine takeWhile_line (by rw [List.mem_reverse]; exact s.not_mem_left) ?_
    rw [List.head?_reverse]
    exact s.above_ends
  rw [position, placeAfter, hcount, hcolumn, List.length_reverse]

theorem isValid_offset : (⟨s.position.offset⟩ : String.Pos.Raw).IsValid source := by
  rw [String.Pos.Raw.isValid_iff_exists_append]
  refine ⟨String.ofList (s.above ++ s.left), String.ofList (s.right ++ s.below), ?_, rfl⟩
  rw [← String.ofList_append, List.append_assoc, ← s.joined, String.ofList_toList]

theorem lineText_append {above line below : List Char} (ha : ∀ c ∈ above.getLast?, c = '\n')
    (hl : '\n' ∉ line) (hb : ∀ c ∈ below.head?, c = '\n') :
    lineText (above.count '\n' + 1) (above ++ (line ++ below)) = line := by
  generalize hn : above.count '\n' = n
  induction n generalizing above with
  | zero =>
    have hnone : '\n' ∉ above := List.count_eq_zero.mp hn
    have hnil : above = [] := by
      cases hlast : above.getLast? with
      | none => exact List.getLast?_eq_none_iff.mp hlast
      | some c => exact absurd (ha c hlast ▸ List.mem_of_mem_getLast? hlast) hnone
    rw [hnil, List.nil_append, Nat.zero_add, lineText, takeWhile_line hl hb]
  | succ n ih =>
    have hsome : '\n' ∈ above := List.count_pos_iff.mp (hn ▸ Nat.succ_pos n)
    obtain ⟨first, above, rfl, hfirst⟩ := List.eq_append_cons_of_mem hsome
    have hrest : above.count '\n' = n := by
      rw [List.count_append, List.count_eq_zero.mpr hfirst, List.count_cons_self] at hn
      omega
    have hends : ∀ c ∈ above.getLast?, c = '\n' := by
      intro c hc
      refine ha c ?_
      rw [List.getLast?_append, List.getLast?_cons]
      simp [Option.mem_def.mp hc]
    rw [lineText, List.append_assoc, dropWhile_line hfirst (by rintro _ ⟨⟩; rfl)]
    exact ih hends hrest

theorem lineText_eq : lineText s.position.line source.toList = s.left ++ s.right := by
  rw [s.joined, ← List.append_assoc s.left, position, Nat.add_comm]
  refine lineText_append s.above_ends ?_ s.below_starts
  exact fun h => (List.mem_append.mp h).elim s.not_mem_left s.not_mem_right

end Spot

end FormulaShell.Text
