import FormulaShell.Text.Blank
import FormulaShell.Text.Word
import Mathlib.Data.List.TakeWhile
import Mathlib.Tactic.Tauto

namespace FormulaShell.Text

def blankCodes : List Nat :=
  [9, 10, 11, 12, 13, 32, 0x85, 0xa0, 0x1680, 0x2000, 0x2001, 0x2002, 0x2003, 0x2004, 0x2005,
   0x2006, 0x2007, 0x2008, 0x2009, 0x200a, 0x2028, 0x2029, 0x202f, 0x205f, 0x3000]

theorem toNat_mem_blankCodes {c : Char} (h : isBlank c) : c.toNat ∈ blankCodes := by
  simp only [isBlank, Bool.or_eq_true, Bool.and_eq_true, decide_eq_true_eq, beq_iff_eq] at h
  simp only [blankCodes, List.mem_cons, List.not_mem_nil, or_false]
  omega

theorem isWordChar_ofNat_blank : ∀ n ∈ blankCodes, isWordChar (Char.ofNat n) = false := by
  decide +kernel

theorem isBlank_eq_false_of_isWordChar {c : Char} (h : isWordChar c) : isBlank c = false := by
  cases hb : isBlank c with
  | false => rfl
  | true =>
    have hw := isWordChar_ofNat_blank c.toNat (toNat_mem_blankCodes hb)
    rw [Char.ofNat_toNat] at hw
    exact absurd h (by simp [hw])

theorem isWordChar_of_isWordStart {c : Char} (h : isWordStart c) : isWordChar c := by
  simp only [isWordStart, isWordChar, Bool.or_eq_true] at h ⊢
  tauto

theorem isWordChar_of_isAsciiDigit {c : Char} (h : isAsciiDigit c) : isWordChar c := by
  have hd := h
  simp only [isAsciiDigit, Bool.and_eq_true, decide_eq_true_eq] at h
  have hn : isNumeral c = true := by
    rw [isNumeral, if_pos (by omega)]
    exact hd
  simp [isWordChar, hn]

section

variable {p : Char → Bool} {cs rest : List Char} (hc : ∀ c ∈ cs, p c = true)
  (hr : ∀ c ∈ rest.head?, p c = false)

include hc hr

theorem takeWhile_append_of_head : (cs ++ rest).takeWhile p = cs := by
  rw [List.takeWhile_append_of_pos hc]
  cases rest with
  | nil => simp
  | cons c rest => simp [hr c rfl]

theorem dropWhile_append_of_head : (cs ++ rest).dropWhile p = rest := by
  rw [List.dropWhile_append_of_pos hc]
  cases rest with
  | nil => simp
  | cons c rest => simp [hr c rfl]

theorem append_inj_of_head {ds tail : List Char} (hd : ∀ c ∈ ds, p c = true)
    (ht : ∀ c ∈ tail.head?, p c = false) (h : cs ++ rest = ds ++ tail) : cs = ds ∧ rest = tail := by
  obtain rfl : cs = ds := by
    rw [← takeWhile_append_of_head hc hr, h, takeWhile_append_of_head hd ht]
  exact ⟨rfl, List.append_cancel_left h⟩

end

end FormulaShell.Text
