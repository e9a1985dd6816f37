import FormulaShell.Proofs.Fields
import FormulaShell.Proofs.Value.Alignment

namespace FormulaShell

section

variable {α : Type} [BEq α] [LawfulBEq α]

theorem eraseDups_eraseDups (xs : List α) : xs.eraseDups.eraseDups = xs.eraseDups := by
  induction xs using List.reverseRecOn with
  | nil => rfl
  | append_singleton xs a ih =>
    by_cases h : a ∈ xs
    · rw [eraseDups_concat_of_mem h, ih]
    · rw [eraseDups_concat_of_notMem h, eraseDups_concat_of_notMem (mt List.mem_eraseDups.mp h), ih]

theorem eraseDups_append_eraseDups (xs ys : List α) :
    (xs.eraseDups ++ ys.eraseDups).eraseDups = (xs ++ ys).eraseDups := by
  induction ys using List.reverseRecOn with
  | nil => rw [List.eraseDups_nil, List.append_nil, List.append_nil, eraseDups_eraseDups]
  | append_singleton ys a ih =>
    have hmem : a ∈ xs.eraseDups ++ ys.eraseDups ↔ a ∈ xs ++ ys := by
      rw [List.mem_append, List.mem_append, List.mem_eraseDups, List.mem_eraseDups]
    by_cases hy : a ∈ ys
    · rw [eraseDups_concat_of_mem hy, ← List.append_assoc,
        eraseDups_concat_of_mem (List.mem_append_right xs hy), ih]
    · rw [eraseDups_concat_of_notMem hy, ← List.append_assoc, ← List.append_assoc]
      by_cases h : a ∈ xs ++ ys
      · rw [eraseDups_concat_of_mem h, eraseDups_concat_of_mem (hmem.mpr h), ih]
      · rw [eraseDups_concat_of_notMem h, eraseDups_concat_of_notMem (mt hmem.mp h), ih]

theorem eraseDups_append_of_subset {xs ys : List α} (h : ∀ y ∈ ys, y ∈ xs) :
    (xs ++ ys).eraseDups = xs.eraseDups := by
  have hnone : ys.removeAll xs = [] := by simpa [List.removeAll, List.filter_eq_nil_iff] using h
  rw [List.eraseDups_append, hnone, List.eraseDups_nil, List.append_nil]

end

namespace Table

def pad (names : List String) (row : Record) : Record :=
  ⟨names.map fun n => (n, (row.get? n).getD .blank)⟩

theorem union_eq (rows : Table) : union rows = rows.map (pad (columns rows)) := rfl

theorem names_pad (names : List String) (row : Record) : (pad names row).names = names := by
  simp [pad, Fields.names, Function.comp_def]

theorem get?_pad (names : List String) (row : Record) (n : String) :
    (pad names row).get? n = if n ∈ names then some ((row.get? n).getD .blank) else none := by
  induction names with
  | nil => rfl
  | cons m names ih =>
    have hcons : (pad (m :: names) row).get? n =
        if m = n then some ((row.get? m).getD .blank) else (pad names row).get? n := rfl
    rw [hcons, ih]
    by_cases h : m = n
    · simp [h]
    · simp [h, Ne.symm h]

/-- Only the columns that are given last count, if none of the row has been lost before. -/
theorem pad_pad {names : List String} {row : Record} (h : ∀ n ∈ row.names, n ∈ names)
    (names' : List String) : pad names' (pad names row) = pad names' row := by
  have hget (n : String) : ((pad names row).get? n).getD .blank = (row.get? n).getD .blank := by
    rw [get?_pad]
    split
    · rfl
    next hn => rw [Fields.get?_eq_none fun hrow => hn (h n hrow)]
  rw [pad]
  simp only [hget]
  rfl

theorem columns_append (t u : Table) : columns (t ++ u) = (columns t ++ columns u).eraseDups := by
  rw [columns, List.flatMap_append, columns, columns, eraseDups_append_eraseDups]

theorem columns_union (t : Table) : columns (union t) = columns t := by
  cases t with
  | nil => rfl
  | cons row t =>
    -- The first row has all columns already, and the others bring no more.
    have hsubset : ∀ n ∈ (t.map (pad (columns (row :: t)))).flatMap Fields.names,
        n ∈ columns (row :: t) := by
      intro n hn
      obtain ⟨_, hpadded, hn⟩ := List.mem_flatMap.mp hn
      obtain ⟨r, -, rfl⟩ := List.mem_map.mp hpadded
      rwa [names_pad] at hn
    rw [columns, union_eq, List.map_cons, List.flatMap_cons, names_pad,
      eraseDups_append_of_subset hsubset, columns, eraseDups_eraseDups]

theorem map_pad_union (t : Table) (names : List String) :
    (union t).map (pad names) = t.map (pad names) := by
  rw [union_eq, List.map_map]
  refine List.map_congr_left fun row hrow => ?_
  exact pad_pad (fun n hn => mem_columns.mpr ⟨row, hrow, hn⟩) names

theorem union_append_union (t u : Table) : union (union t ++ union u) = union (t ++ u) := by
  have hcolumns : columns (union t ++ union u) = columns (t ++ u) := by
    rw [columns_append, columns_append, columns_union, columns_union]
  rw [union_eq, hcolumns, List.map_append, map_pad_union, map_pad_union, ← List.map_append,
    ← union_eq]

end Table

end FormulaShell
