import FormulaShell.Proofs.Fields
import FormulaShell.Proofs.Number.Text
import FormulaShell.Value.Render
import Mathlib.Data.List.Induction
import Mathlib.Order.Bounds.Basic

namespace FormulaShell

section

variable {α : Type} {separator : α}

theorem length_intercalate (parts : List (List α)) :
    ([separator].intercalate parts).length = (parts.map List.length).sum + (parts.length - 1) := by
  induction parts with
  | nil => rfl
  | cons p parts ih =>
    cases parts with
    | nil => simp
    | cons q parts =>
      rw [List.intercalate_cons_cons, List.length_append, List.length_append, ih]
      simp only [List.map_cons, List.sum_cons, List.length_cons, List.length_nil]
      omega

theorem not_mem_intercalate {a : α} {parts : List (List α)} (hs : a ≠ separator)
    (hp : ∀ p ∈ parts, a ∉ p) : a ∉ [separator].intercalate parts := by
  induction parts with
  | nil => exact List.not_mem_nil
  | cons p parts ih =>
    obtain ⟨hhead, htail⟩ := List.forall_mem_cons.mp hp
    cases parts with
    | nil => simpa using hhead
    | cons q parts =>
      rw [List.intercalate_cons_cons]
      simp only [List.mem_append, List.mem_singleton, not_or]
      exact ⟨⟨hhead, hs⟩, ih htail⟩

theorem take_drop_intercalate {parts : List (List α)} {j : Nat} {p : List α}
    (h : parts[j]? = some p) :
    (([separator].intercalate parts).drop ((parts.take j).map fun q => q.length + 1).sum).take
      p.length = p := by
  induction parts generalizing j with
  | nil => simp at h
  | cons q parts ih =>
    cases j with
    | zero =>
      obtain rfl : q = p := by simpa using h
      cases parts with
      | nil => simp
      | cons r parts => simp [List.intercalate_cons_cons]
    | succ j =>
      rw [List.getElem?_cons_succ] at h
      cases parts with
      | nil => simp at h
      | cons r parts =>
        have hq : (q ++ [separator]).length = q.length + 1 := by simp
        rw [List.take_succ_cons, List.map_cons, List.sum_cons, List.intercalate_cons_cons,
          ← List.drop_drop, ← hq, List.drop_left]
        exact ih h

section

variable [BEq α] [LawfulBEq α] {a : α} {xs : List α}

theorem eraseDups_concat_of_mem (h : a ∈ xs) : (xs ++ [a]).eraseDups = xs.eraseDups := by
  simp [List.eraseDups_append, List.removeAll, h]

theorem eraseDups_concat_of_notMem (h : a ∉ xs) :
    (xs ++ [a]).eraseDups = xs.eraseDups ++ [a] := by
  simp [List.eraseDups_append, List.removeAll, h, List.eraseDups_cons]

theorem pairwise_idxOf_eraseDups (xs : List α) :
    xs.eraseDups.Pairwise fun a b => xs.idxOf a < xs.idxOf b := by
  induction xs using List.reverseRecOn with
  | nil => exact .nil
  | append_singleton xs x ih =>
    have hkept : xs.eraseDups.Pairwise fun a b => (xs ++ [x]).idxOf a < (xs ++ [x]).idxOf b := by
      refine ih.imp_of_mem fun ha hb hlt => ?_
      rw [List.mem_eraseDups] at ha hb
      rwa [List.idxOf_append_of_mem ha, List.idxOf_append_of_mem hb]
    by_cases hx : x ∈ xs
    · rw [eraseDups_concat_of_mem hx]
      exact hkept
    · rw [eraseDups_concat_of_notMem hx]
      refine List.pairwise_append.mpr ⟨hkept, List.pairwise_singleton _ x, fun a ha b hb => ?_⟩
      obtain rfl := List.mem_singleton.mp hb
      rw [List.mem_eraseDups] at ha
      rw [List.idxOf_append_of_mem ha, List.idxOf_append_of_notMem hx]
      exact Nat.lt_add_right _ (List.idxOf_lt_length_of_mem ha)

end

end

namespace Text

theorem toList_padRight (width : Nat) (s : String) :
    (padRight width s).toList = s.toList ++ List.replicate (width - s.length) ' ' := by
  rw [padRight, String.toList_append, String.toList_ofList]

theorem toList_padLeft (width : Nat) (s : String) :
    (padLeft width s).toList = List.replicate (width - s.length) ' ' ++ s.toList := by
  rw [padLeft, String.toList_append, String.toList_ofList]

end Text

theorem Number.newline_not_mem_text (x : Float) : '\n' ∉ (Number.text x).toList := by
  by_cases hx : Number.isFinite x = true
  · obtain ⟨negative, n, -, htext, -, -⟩ := Number.exists_text hx
    rw [htext]
    intro h
    obtain hsign | hchars := List.mem_append.mp h
    · cases negative
      · cases hsign
      · exact absurd hsign (by decide)
    · obtain hdigit | hpoint := n.isAsciiDigit_or_eq_of_mem_chars hchars
      · exact absurd hdigit (by decide)
      · exact absurd hpoint (by decide)
  · rw [Number.text, Number.write]
    rw [Number.isFinite] at hx
    cases hp : Number.parts x with
    | nan => decide
    | infinite negative => cases negative <;> decide
    | finite negative m q => exact absurd (by rw [hp]) hx

theorem Decimal.newline_not_mem_text (d : Decimal) : '\n' ∉ d.text.toList := by
  have hpadded : ∀ k, '\n' ∉ List.replicate k '0' ++ Nat.toDigits 10 d.mantissa := by
    intro k h
    obtain h | h := List.mem_append.mp h
    · exact absurd (List.eq_of_mem_replicate h) (by decide)
    · exact absurd (Number.isAsciiDigit_of_mem_toDigits _ h) (by decide)
  simp only [Decimal.text]
  generalize hp : List.replicate (d.scale + 1 - (Nat.toDigits 10 d.mantissa).length) '0' ++
    Nat.toDigits 10 d.mantissa = padded
  have hn : '\n' ∉ padded := hp ▸ hpadded _
  have hsplit (k : Nat) : '\n' ∉ padded.take k ++ '.' :: padded.drop k := by
    simp only [List.mem_append, List.mem_cons, not_or]
    exact ⟨fun h => hn (List.mem_of_mem_take h), by decide, fun h => hn (List.mem_of_mem_drop h)⟩
  have hbody : '\n' ∉ if d.scale = 0 then padded else
      padded.take (padded.length - d.scale) ++ '.' :: padded.drop (padded.length - d.scale) := by
    split
    · exact hn
    · exact hsplit _
  rw [String.toList_append, String.toList_ofList]
  cases d.negative <;> simp [hbody]

theorem Value.newline_not_mem_cell (v : Value) (h : ∀ s, v = .text s → '\n' ∉ s.toList) :
    '\n' ∉ v.cell.toList := by
  cases v with
  | number x => exact Number.newline_not_mem_text x
  | decimal d => exact d.newline_not_mem_text
  | text s => exact h s rfl
  | boolean b => cases b <;> decide
  | blank => exact List.not_mem_nil
  | error _ => exact (by decide : '\n' ∉ "<error>".toList)
  | record _ => exact (by decide : '\n' ∉ "<record>".toList)
  | table _ => exact (by decide : '\n' ∉ "<table>".toList)
  | untyped _ => exact (by decide : '\n' ∉ "<untyped>".toList)

namespace Table

variable {t : Table}

theorem isGreatest_width (t : Table) (c : String) :
    IsGreatest {n | n = c.length ∨ ∃ row ∈ t, n = (cellAt row c).length} (t.width c) := by
  rw [width]
  generalize c.length = least
  induction t generalizing least with
  | nil => simp [IsGreatest]
  | cons row t ih =>
    obtain ⟨hmem, hle⟩ := ih (max least (cellAt row c).length)
    rw [List.foldl_cons]
    refine ⟨?_, ?_⟩
    · obtain h | ⟨r, hr, h⟩ := hmem
      · rcases le_total least (cellAt row c).length with hl | hl
        · exact .inr ⟨row, List.mem_cons_self .., h.trans (max_eq_right hl)⟩
        · exact .inl (h.trans (max_eq_left hl))
      · exact .inr ⟨r, List.mem_cons_of_mem row hr, h⟩
    · have hmax := hle (.inl rfl)
      rintro n (rfl | ⟨r, hr, rfl⟩)
      · exact (le_max_left ..).trans hmax
      · obtain rfl | hr := List.mem_cons.mp hr
        · exact (le_max_right ..).trans hmax
        · exact hle (.inr ⟨r, hr, rfl⟩)

def start (t : Table) (j : Nat) : Nat := ((t.columns.take j).map fun c => t.width c + 3).sum

/-- The characters of a line that the column at `j` has to itself. -/
def range (t : Table) (j : Nat) (c : String) (line : List Char) : List Char :=
  (line.drop (t.start j)).take (t.width c + 2)

def lineLength (t : Table) : Nat :=
  (t.columns.map fun c => t.width c + 2).sum + (t.columns.length - 1)

/-- A line with one text for each column, as wide as the column and a blank on both sides. -/
structure Fits (t : Table) (text : String → List Char) : Prop where
  length : ∀ c ∈ t.columns, (text c).length = t.width c + 2
  unbroken : ∀ c ∈ t.columns, '\n' ∉ text c

def lineOf (t : Table) (text : String → List Char) : List Char :=
  [' '].intercalate (t.columns.map text)

theorem toList_line (cells : List String) :
    (line cells).toList = [' '].intercalate (cells.map String.toList) := by
  rw [line, String.toList_intercalate]
  rfl

namespace Fits

variable {text : String → List Char} (h : Fits t text)
include h

theorem length_lineOf : (t.lineOf text).length = t.lineLength := by
  rw [lineOf, length_intercalate, List.map_map, List.length_map, lineLength]
  congr 2
  exact List.map_congr_left h.length

theorem range_lineOf {j : Nat} {c : String} (hc : t.columns[j]? = some c) :
    t.range j c (t.lineOf text) = text c := by
  have hm := List.mem_of_getElem? hc
  have hj : (t.columns.map text)[j]? = some (text c) := by rw [List.getElem?_map, hc]; rfl
  have hstart : t.start j = (((t.columns.map text).take j).map fun q => q.length + 1).sum := by
    rw [start, ← List.map_take, List.map_map]
    congr 1
    refine List.map_congr_left fun d hd => ?_
    rw [Function.comp_apply, h.length d (List.mem_of_mem_take hd)]
  rw [range, hstart, ← h.length c hm]
  exact take_drop_intercalate hj

theorem unbroken_lineOf : '\n' ∉ t.lineOf text := by
  refine not_mem_intercalate (by decide) fun p hp => ?_
  obtain ⟨c, hc, rfl⟩ := List.mem_map.mp hp
  exact h.unbroken c hc

end Fits

def headerText (t : Table) (c : String) : List Char :=
  ' ' :: c.toList ++ List.replicate (t.width c - c.length) ' ' ++ [' ']

def ruleText (t : Table) (c : String) : List Char := List.replicate (t.width c + 2) '='

def cellText (t : Table) (row : Record) (c : String) : List Char :=
  ' ' :: List.replicate (t.width c - (cellAt row c).length) ' ' ++ (cellAt row c).toList ++ [' ']

theorem toList_line_columns (t : Table) (f : String × Nat → String) :
    (line ((t.columns.map fun c => (c, t.width c)).map f)).toList =
      t.lineOf fun c => (f (c, t.width c)).toList := by
  rw [toList_line, lineOf, List.map_map, List.map_map]
  rfl

theorem toList_layout (t : Table) :
    (layout t).toList = ['\n'].intercalate
      (t.lineOf t.headerText :: t.lineOf t.ruleText ::
        t.map fun row => t.lineOf (t.cellText row)) := by
  have hheader : (fun c => (" " ++ Text.padRight (t.width c) c ++ " ").toList) = t.headerText := by
    funext c
    simp [headerText, Text.toList_padRight]
  have hrule : (fun c => (String.ofList (List.replicate (t.width c + 2) '=')).toList) =
      t.ruleText := by
    funext c
    rw [String.toList_ofList, ruleText]
  have hcell (row : Record) :
      (fun c => (" " ++ Text.padLeft (t.width c) (cellAt row c) ++ " ").toList) =
        t.cellText row := by
    funext c
    simp [cellText, Text.toList_padLeft]
  rw [layout, String.toList_intercalate, List.map_cons, List.map_cons, toList_line_columns,
    toList_line_columns, hheader, hrule, List.map_map]
  simp only [Function.comp_def, toList_line_columns, hcell]
  rfl

theorem columns_pairwise (t : Table) :
    t.columns.Pairwise fun a b =>
      (t.flatMap Fields.names).idxOf a < (t.flatMap Fields.names).idxOf b :=
  pairwise_idxOf_eraseDups _

theorem mem_columns {c : String} : c ∈ t.columns ↔ ∃ row ∈ t, c ∈ row.names := by
  rw [columns, List.mem_eraseDups, List.mem_flatMap]

theorem length_cellAt_le {row : Record} (hrow : row ∈ t) (c : String) :
    (cellAt row c).length ≤ t.width c :=
  (t.isGreatest_width c).2 (.inr ⟨row, hrow, rfl⟩)

theorem length_le_width (t : Table) (c : String) : c.length ≤ t.width c :=
  (t.isGreatest_width c).2 (.inl rfl)

/-- No text of its own breaks a line. -/
structure Unbroken (t : Table) : Prop where
  names : ∀ c ∈ t.columns, '\n' ∉ c.toList
  texts : ∀ row ∈ t, ∀ c s, row.get? c = some (.text s) → '\n' ∉ s.toList

theorem fits_ruleText (t : Table) : Fits t t.ruleText where
  length c _ := by simp [ruleText]
  unbroken c _ := by simp [ruleText]

namespace Unbroken

variable (h : Unbroken t)
include h

theorem cellAt {row : Record} (hrow : row ∈ t) (c : String) :
    '\n' ∉ (Table.cellAt row c).toList := by
  rw [Table.cellAt]
  cases hv : row.get? c with
  | none => exact List.not_mem_nil
  | some v =>
    exact v.newline_not_mem_cell fun s hs => h.texts row hrow c s (hv.trans (congrArg _ hs))

theorem fits_headerText : Fits t t.headerText where
  length c _ := by
    have hle := t.length_le_width c
    simp only [headerText, List.cons_append, List.length_cons, List.length_append,
      String.length_toList, List.length_replicate, List.length_nil]
    omega
  unbroken c hc := by
    simp [headerText, h.names c hc]

theorem fits_cellText {row : Record} (hrow : row ∈ t) : Fits t (t.cellText row) where
  length c _ := by
    have hle := length_cellAt_le hrow c
    simp only [cellText, List.cons_append, List.length_cons, List.length_append,
      String.length_toList, List.length_replicate, List.length_nil]
    omega
  unbroken c _ := by
    simp [cellText, h.cellAt hrow c]

theorem splitOn_layout : (layout t).toList.splitOn '\n' =
    t.lineOf t.headerText :: t.lineOf t.ruleText :: t.map fun row => t.lineOf (t.cellText row) := by
  rw [toList_layout]
  refine List.splitOn_intercalate _ ?_ (List.cons_ne_nil _ _)
  rw [List.forall_mem_cons, List.forall_mem_cons, List.forall_mem_map]
  exact ⟨h.fits_headerText.unbroken_lineOf, t.fits_ruleText.unbroken_lineOf,
    fun row hrow => (h.fits_cellText hrow).unbroken_lineOf⟩

end Unbroken

/-- Lines of one length, in which every column has the same characters to itself: its name to the
left in the first, a rule in the second, and the text of a cell to the right in those of the rows. -/
structure Aligned (t : Table) (lines : List (List Char)) : Prop where
  /-- Columns stand in the order in which the rows first use them. -/
  order : t.columns.Pairwise fun a b =>
    (t.flatMap Fields.names).idxOf a < (t.flatMap Fields.names).idxOf b
  columns : ∀ c, c ∈ t.columns ↔ ∃ row ∈ t, c ∈ row.names
  width : ∀ c, IsGreatest {n | n = c.length ∨ ∃ row ∈ t, n = (cellAt row c).length} (t.width c)
  count : lines.length = t.length + 2
  length : ∀ l ∈ lines, l.length = t.lineLength
  header : ∀ j c, t.columns[j]? = some c → ∃ l, lines[0]? = some l ∧
    t.range j c l = ' ' :: c.toList ++ List.replicate (t.width c - c.length) ' ' ++ [' ']
  rule : ∀ j c, t.columns[j]? = some c → ∃ l, lines[1]? = some l ∧
    t.range j c l = List.replicate (t.width c + 2) '='
  cells : ∀ r row, t[r]? = some row → ∀ j c, t.columns[j]? = some c →
    ∃ l, lines[r + 2]? = some l ∧ t.range j c l =
      ' ' :: List.replicate (t.width c - (cellAt row c).length) ' ' ++ (cellAt row c).toList ++ [' ']

theorem Unbroken.aligned_layout (h : Unbroken t) :
    t.Aligned ((layout t).toList.splitOn '\n') := by
  rw [h.splitOn_layout]
  refine ⟨t.columns_pairwise, fun c => mem_columns, t.isGreatest_width, ?_, ?_, ?_, ?_, ?_⟩
  case _ => rw [List.length_cons, List.length_cons, List.length_map]
  case _ =>
    rw [List.forall_mem_cons, List.forall_mem_cons, List.forall_mem_map]
    exact ⟨h.fits_headerText.length_lineOf, t.fits_ruleText.length_lineOf,
      fun row hrow => (h.fits_cellText hrow).length_lineOf⟩
  case _ => exact fun j c hc => ⟨_, rfl, h.fits_headerText.range_lineOf hc⟩
  case _ => exact fun j c hc => ⟨_, rfl, t.fits_ruleText.range_lineOf hc⟩
  case _ =>
    intro r row hrow j c hc
    refine ⟨t.lineOf (t.cellText row), ?_, (h.fits_cellText ?_).range_lineOf hc⟩
    · rw [List.getElem?_cons_succ, List.getElem?_cons_succ, List.getElem?_map, hrow]
      rfl
    · exact List.mem_of_getElem? hrow

def people : Table :=
  [⟨[("Name", .text "Zoë"), ("Größe", .number 1.75)]⟩,
   ⟨[("Größe", .decimal ⟨true, 25, 1, by decide, by decide⟩), ("Kin", .table []),
     ("Name", .text "")]⟩,
   ⟨[("Kin", .record ⟨[("Name", .text "A\nB")]⟩)]⟩]

theorem unbroken_people : Unbroken people where
  names := by decide +kernel
  texts := by
    intro row hrow c s hs
    have hentry := Fields.mem_of_get? hs
    simp only [people, List.mem_cons, List.not_mem_nil, or_false] at hrow
    rcases hrow with rfl | rfl | rfl <;>
      simp only [List.mem_cons, List.not_mem_nil, or_false, Prod.mk.injEq, Value.text.injEq,
        reduceCtorEq, and_false, false_or] at hentry
    · rw [hentry.2]
      decide
    · rw [hentry.2]
      decide

end Table

end FormulaShell
