import FormulaShell.Proofs.Formula.Lexes
import FormulaShell.Proofs.Number.Text
import FormulaShell.Value.Layout

namespace FormulaShell.Formula

open FormulaShell.Text

def Stops (rest : List Char) : Prop := ∀ c ∈ rest.head?, c ∈ [',', ']', '}']

theorem stops_nil : Stops [] := by
  intro c hc
  cases hc

theorem stops_cons {c : Char} {rest : List Char} (h : c ∈ [',', ']', '}']) : Stops (c :: rest) := by
  rintro _ ⟨⟩
  exact h

section

variable {p : Position} {rest : List Char}

theorem lexes_blank : Lexes p (' ' :: rest) [] (p.advanceAll [' ']) rest :=
  .skip (.blank rfl) .done

theorem lexes_symbol (c : Char) (p : Position) (rest : List Char) {kind : TokenKind}
    (hk : symbol? c = some kind) (hc : c ∉ ['/', '<', '>', '&', '|']) :
    Lexes p (c :: rest) [⟨kind, String.singleton c, p⟩] (p.advanceAll [c]) rest := by
  refine .token (reads_symbol hk hc rest) ?_ .done
  rintro _ ⟨⟩
  exact isBlank_eq_false_of_symbol? hk

theorem lexes_word {s : String} {kind : TokenKind} (hs : isName s = true)
    (hk : wordKind s = kind) (hr : ∀ d ∈ rest.head?, isWordChar d = false) :
    Lexes p (s.toList ++ rest) [⟨kind, s, p⟩] (p.advanceAll s.toList) rest := by
  obtain ⟨c, cs, hcs⟩ : ∃ c cs, s.toList = c :: cs := by
    cases h : s.toList with
    | nil => simp [isName, h] at hs
    | cons c cs => exact ⟨c, cs, rfl⟩
  have hs' : String.ofList (c :: cs) = s := by rw [← hcs, String.ofList_toList]
  simp only [isName, hcs, Bool.and_eq_true, List.all_eq_true] at hs
  have hread := Reads.word hs.1 hs.2 hr
  rw [hs', hk] at hread
  rw [hcs]
  refine .token hread ?_ .done
  rintro _ ⟨⟩
  exact isBlank_eq_false_of_isWordChar (isWordChar_of_isWordStart hs.1)

theorem toList_quoted (s : String) : (Text.quoted s).toList = enclosed '"' s.toList := by
  rw [Text.quoted, String.toList_ofList]
  rfl

theorem lexes_string (s : String) (hr : rest.head? ≠ some '"') :
    Lexes p ((Text.quoted s).toList ++ rest) [⟨.string, s, p⟩]
      (p.advanceAll (Text.quoted s).toList) rest := by
  have hread := @Reads.string s.toList rest hr
  rw [String.ofList_toList] at hread
  rw [toList_quoted]
  refine .token hread ?_ .done
  rintro _ ⟨⟩
  rfl

theorem lexes_quoted (s : String) (hr : Stops rest) :
    Lexes p ((Text.quoted s).toList ++ rest) [⟨.string, s, p⟩]
      (p.advanceAll (Text.quoted s).toList) rest :=
  lexes_string s fun h => absurd (hr _ h) (by decide)

theorem digitCount_append {ds : List Char} (hd : ∀ c ∈ ds, isAsciiDigit c = true)
    (hr : ∀ c ∈ rest.head?, isAsciiDigit c = false) : digitCount (ds ++ rest) = ds.length := by
  rw [digitCount, takeWhile_append_of_head hd hr]

theorem eq_of_stops {c : Char} (h : Stops rest) (hc : c ∈ rest.head?) :
    c = ',' ∨ c = ']' ∨ c = '}' := by
  simpa using h c hc

theorem not_isAsciiDigit_of_stops (h : Stops rest) : ∀ c ∈ rest.head?, isAsciiDigit c = false := by
  intro c hc
  obtain rfl | rfl | rfl := eq_of_stops h hc <;> rfl

theorem fractionLength_tail {fraction : List Char} (hd : ∀ c ∈ fraction, isAsciiDigit c = true)
    (hr : Stops rest) :
    fractionLength (Number.Numeral.tail fraction ++ rest) =
      (Number.Numeral.tail fraction).length := by
  have hcount := digitCount_append hd (not_isAsciiDigit_of_stops hr)
  cases fraction with
  | nil =>
    cases rest with
    | nil => rfl
    | cons c rest =>
      have hc : c ≠ '.' := by
        rintro rfl
        exact absurd (hr '.' rfl) (by decide)
      simp [Number.Numeral.tail, fractionLength, hc]
  | cons d fraction =>
    rw [List.cons_append] at hcount
    simp [Number.Numeral.tail, fractionLength, hcount]

theorem exponentLength_of_stops (h : Stops rest) : exponentLength rest = 0 := by
  cases rest with
  | nil => rfl
  | cons c rest =>
    have hc : ¬(c = 'e' ∨ c = 'E') := by
      rintro (rfl | rfl)
      · exact absurd (h 'e' rfl) (by decide)
      · exact absurd (h 'E' rfl) (by decide)
    simp only [exponentLength, if_neg hc]

theorem lexes_numeral (n : Number.Numeral) (hr : Stops rest) :
    Lexes p (n.chars ++ rest) [⟨.number, String.ofList n.chars, p⟩] (p.advanceAll n.chars) rest := by
  obtain ⟨c, ds, hw⟩ := List.exists_cons_of_ne_nil n.nonempty
  have hchars : n.chars = c :: (ds ++ Number.Numeral.tail n.fraction) := by
    rw [Number.Numeral.chars, hw, List.cons_append]
  have hdigits := n.whole_digits
  rw [hw] at hdigits
  have hnext : ∀ d ∈ (Number.Numeral.tail n.fraction ++ rest).head?, isAsciiDigit d = false := by
    cases n.fraction with
    | nil => exact not_isAsciiDigit_of_stops hr
    | cons d fraction =>
      rintro _ ⟨⟩
      rfl
  have hcount := digitCount_append (fun d hd => hdigits d (List.mem_cons_of_mem c hd)) hnext
  have hlength : numberLength (ds ++ Number.Numeral.tail n.fraction ++ rest) =
      (ds ++ Number.Numeral.tail n.fraction).length := by
    rw [numberLength, List.append_assoc, hcount]
    simp only [List.drop_left, fractionLength_tail n.fraction_digits hr]
    rw [← List.length_append, ← List.append_assoc, List.drop_left, exponentLength_of_stops hr,
      Nat.add_zero]
  rw [hchars]
  refine .token (.number (hdigits c List.mem_cons_self) hlength) ?_ .done
  rintro _ ⟨⟩
  exact isBlank_eq_false_of_isWordChar
    (isWordChar_of_isAsciiDigit (hdigits c List.mem_cons_self))

end

theorem read?_numeral {n : Number.Numeral} {x : Float}
    (h : Number.readUnsigned? n.chars = some x) :
    Number.read? (String.ofList n.chars) = some x := by
  obtain ⟨d, ds, hd, hdigit⟩ := n.exists_chars
  have h1 : d ≠ '-' := by
    rintro rfl
    exact absurd hdigit (by decide)
  have h2 : d ≠ '+' := by
    rintro rfl
    exact absurd hdigit (by decide)
  rw [hd] at h
  rw [Number.read?, String.toList_ofList, hd]
  simp [h1, h2, Number.readSigned?, h]

end FormulaShell.Formula
