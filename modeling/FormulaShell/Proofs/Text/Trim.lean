import FormulaShell.Text.Blank
import Mathlib.Data.List.TakeWhile

namespace FormulaShell.Text

def Blanks (cs : List Char) : Prop := ∀ c ∈ cs, isBlank c

theorem exists_trimStart (cs : List Char) : ∃ ws, Blanks ws ∧ cs = ws ++ trimStart cs :=
  ⟨cs.takeWhile isBlank, fun _ h => List.mem_takeWhile_imp h, List.takeWhile_append_dropWhile.symm⟩

theorem exists_trimEnd (cs : List Char) : ∃ ws, Blanks ws ∧ cs = trimEnd cs ++ ws := by
  obtain ⟨ws, hw, hcs⟩ := exists_trimStart cs.reverse
  refine ⟨ws.reverse, fun c h => hw c (List.mem_reverse.mp h), ?_⟩
  rw [trimEnd, ← List.reverse_append]
  exact (List.reverse_reverse cs).symm.trans (congrArg List.reverse hcs)

theorem trimStart_append {xs : List Char} (h : trimStart xs ≠ []) (ys : List Char) :
    trimStart (xs ++ ys) = trimStart xs ++ ys := by
  rw [trimStart, trimStart, List.dropWhile_append, if_neg (by simpa [trimStart] using h)]

theorem trimStart_append_of_nil {xs : List Char} (h : trimStart xs = []) (ys : List Char) :
    trimStart (xs ++ ys) = trimStart ys := by
  rw [trimStart, trimStart, List.dropWhile_append, if_pos (by simpa [trimStart] using h)]

theorem trimEnd_append {ys : List Char} (h : trimEnd ys ≠ []) (xs : List Char) :
    trimEnd (xs ++ ys) = xs ++ trimEnd ys := by
  have hr : trimStart ys.reverse ≠ [] := fun hr => h (by rw [trimEnd, ← trimStart, hr]; rfl)
  have ha := trimStart_append hr xs.reverse
  rw [trimEnd, List.reverse_append, ← trimStart, ha, List.reverse_append, List.reverse_reverse]
  rfl

theorem trimEnd_cons {c : Char} (hc : isBlank c = false) (cs : List Char) :
    trimEnd (c :: cs) = c :: trimEnd cs := by
  by_cases h : trimEnd cs = []
  · have hr : trimStart cs.reverse = [] := by
      rw [trimEnd, ← trimStart] at h
      simpa using h
    have ha := trimStart_append_of_nil hr [c]
    rw [trimEnd, List.reverse_cons, ← trimStart, ha, h]
    simp [trimStart, hc]
  · exact trimEnd_append h [c]

end FormulaShell.Text
