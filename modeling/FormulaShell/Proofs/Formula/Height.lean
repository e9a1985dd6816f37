import FormulaShell.Proofs.Formula.DefinitionGrammar
import Mathlib.Data.Nat.Basic
import Mathlib.Order.MinMax

namespace FormulaShell.Formula

namespace Expr

mutual

/-- The most expressions one inside another. -/
def height : Expr → Nat
  | number _ | text _ | boolean _ | name _ _ => 1
  | record fields => fieldsHeight fields + 1
  | table items | chain items | call _ items _ => allHeight items + 1
  | unary _ e | percent e | field e _ => height e + 1
  | binary _ l r => max (height l) (height r) + 1

def allHeight : List Expr → Nat
  | [] => 0
  | e :: rest => max (height e) (allHeight rest)

def fieldsHeight : List (String × Expr) → Nat
  | [] => 0
  | (_, e) :: rest => max (height e) (fieldsHeight rest)

end

theorem height_pos (e : Expr) : 0 < e.height := by
  cases e <;> simp [height]

theorem allHeight_le_inSequence (es : List Expr) : allHeight es ≤ (inSequence es).height := by
  unfold inSequence
  split
  · simp [allHeight]
  · simp [height]

theorem height_inSequence_le (es : List Expr) : (inSequence es).height ≤ allHeight es + 1 := by
  unfold inSequence
  split
  · simp [allHeight]
  · simp [height]

end Expr

def Symbol.height : (s : Symbol) → s.Value → Nat
  | list | items | chain => Expr.allHeight
  | fields _ | entries => Expr.fieldsHeight
  | row _ | operand | suffixed | atom => Expr.height

namespace Derivation

/-- The most operators and suffixes one inside another, outside of brackets, with the operand. -/
@[simp]
def run : {s : Symbol} → Derivation s → Nat
  | _, operand e | _, tighter e | _, unsigned e | _, bare e | _, signed _ e => e.run
  | _, left _ a _ b | _, right _ a _ b | _, single _ a _ b => max a.run b.run + 1
  | _, percent e _ | _, field e .. => e.run + 1
  | _, lastItem e | _, lastLink e | _, endLink e _ | _, lastField _ _ _ e => e.run
  | _, consItem e _ more | _, consLink e _ more | _, consField _ _ _ e _ more => max e.run more.run
  | _, noItems | _, noEntries | _, someItems _ | _, someEntries _ => 0
  | _, number .. | _, text _ | _, truth _ | _, falsehood _ | _, name _ | _, call .. | _, group ..
  | _, record .. | _, table .. => 1

/-- The longest run, also inside of brackets. -/
@[simp]
def longestRun : {s : Symbol} → Derivation s → Nat
  | _, operand e | _, tighter e | _, unsigned e | _, bare e | _, signed _ e => e.longestRun
  | _, left _ a _ b | _, right _ a _ b | _, single _ a _ b =>
    max (max a.run b.run + 1) (max a.longestRun b.longestRun)
  | _, percent e _ | _, field e .. => max (e.run + 1) e.longestRun
  | _, lastItem e | _, lastLink e | _, endLink e _ | _, lastField _ _ _ e => e.longestRun
  | _, consItem e _ more | _, consLink e _ more | _, consField _ _ _ e _ more =>
    max e.longestRun more.longestRun
  | _, noItems | _, noEntries => 0
  | _, someItems list => list.longestRun
  | _, someEntries fields => fields.longestRun
  | _, number .. | _, text _ | _, truth _ | _, falsehood _ | _, name _ => 1
  | _, call _ _ args _ => max 1 args.longestRun
  | _, group _ inner _ => max 1 inner.longestRun
  | _, record _ entries _ => max 1 entries.longestRun
  | _, table _ items _ => max 1 items.longestRun

variable {s : Symbol}

theorem run_le_longestRun (d : Derivation s) : d.run ≤ d.longestRun := by
  induction d <;> simp only [run, longestRun] <;> omega

theorem height_apply (sign : Sign) (e : Expr) :
    e.height ≤ (sign.apply e).height ∧ (sign.apply e).height ≤ e.height + 1 := by
  rw [Sign.apply]
  split <;> simp [Expr.height]

theorem run_le_height (d : Derivation s) : d.run ≤ s.height d.value := by
  induction d with
  | operand e ih | tighter e ih | unsigned e ih | bare e ih => exact ih
  | signed sign e ih => exact ih.trans (height_apply sign e.value).1
  | left _ a _ b iha ihb | right _ a _ b iha ihb | single _ a _ b iha ihb =>
    exact Nat.succ_le_succ (max_le_max iha ihb)
  | percent e _ ih | field e _ _ ih => exact Nat.succ_le_succ ih
  | number | text | truth | falsehood | name | call | group | record | table =>
    exact Expr.height_pos _
  | lastItem e ih | lastLink e ih | endLink e _ ih | lastField _ _ _ e ih =>
    exact ih.trans (Nat.le_max_left ..)
  | consItem e _ more ihe ihm | consLink e _ more ihe ihm | consField _ _ _ e _ more ihe ihm =>
    exact max_le_max ihe ihm
  | noItems | noEntries | someItems | someEntries => exact Nat.zero_le _

theorem longestRun_le_height (d : Derivation s) : d.longestRun ≤ s.height d.value := by
  induction d with
  | operand e ih | tighter e ih | unsigned e ih | bare e ih | someItems _ ih | someEntries _ ih =>
    exact ih
  | signed sign e ih => exact ih.trans (height_apply sign e.value).1
  | left _ a _ b iha ihb | right _ a _ b iha ihb | single _ a _ b iha ihb =>
    have hrun := max_le_max a.run_le_height b.run_le_height
    exact max_le (Nat.succ_le_succ hrun) ((max_le_max iha ihb).trans (Nat.le_succ _))
  | percent e _ ih | field e _ _ ih =>
    exact max_le (Nat.succ_le_succ e.run_le_height) (ih.trans (Nat.le_succ _))
  | number | text | truth | falsehood | name => exact Expr.height_pos _
  | group _ inner _ ih =>
    exact max_le (Expr.height_pos _) (ih.trans (Expr.allHeight_le_inSequence _))
  | call _ _ _ _ ih | record _ _ _ ih | table _ _ _ ih =>
    exact max_le (Expr.height_pos _) (ih.trans (Nat.le_succ _))
  | lastItem e ih | lastLink e ih | endLink e _ ih | lastField _ _ _ e ih =>
    exact ih.trans (Nat.le_max_left ..)
  | consItem e _ more ihe ihm | consLink e _ more ihe ihm | consField _ _ _ e _ more ihe ihm =>
    exact max_le_max ihe ihm
  | noItems | noEntries => exact Nat.zero_le _

theorem run_items (d : Derivation .items) : d.run = 0 := by cases d <;> rfl

theorem run_entries (d : Derivation .entries) : d.run = 0 := by cases d <;> rfl

theorem max_le_of_both {x y r r' n n' bound : Nat} (hx : x ≤ r + n * bound)
    (hy : y ≤ r' + n' * bound) : max x y ≤ max r r' + max n n' * bound :=
  max_le
    (hx.trans (Nat.add_le_add (Nat.le_max_left ..) (Nat.mul_le_mul_right _ (Nat.le_max_left ..))))
    (hy.trans (Nat.add_le_add (Nat.le_max_right ..) (Nat.mul_le_mul_right _ (Nat.le_max_right ..))))

theorem le_of_bracket {x r n bound : Nat} (h : x ≤ r + n * bound) (hr : r ≤ bound) :
    x ≤ (n + 1) * bound := by
  rw [Nat.succ_mul]
  omega

/-- Each sign adds one to the height at most, and each pair of brackets a run. -/
theorem height_le {bound : Nat} (d : Derivation s) (h : d.longestRun ≤ bound) (hpos : 0 < bound) :
    s.height d.value ≤ d.run + d.nesting * bound := by
  induction d with
  | operand e ih | tighter e ih | unsigned e ih | bare e ih => exact ih h
  | signed sign e ih =>
    calc (sign.apply e.value).height
      _ ≤ e.value.height + 1 := (height_apply sign e.value).2
      _ ≤ e.run + e.nesting * bound + bound := Nat.add_le_add (ih h) hpos
      _ = e.run + (e.nesting + 1) * bound := by rw [Nat.succ_mul, Nat.add_assoc]
  | left _ a _ b iha ihb | right _ a _ b iha ihb | single _ a _ b iha ihb =>
    simp only [longestRun, max_le_iff] at h
    have hmax := max_le_of_both (iha h.2.1) (ihb h.2.2)
    calc max a.value.height b.value.height + 1
      _ ≤ max a.run b.run + max a.nesting b.nesting * bound + 1 := Nat.succ_le_succ hmax
      _ = max a.run b.run + 1 + max a.nesting b.nesting * bound := Nat.add_right_comm ..
  | percent e _ ih | field e _ _ ih =>
    have he := ih ((Nat.le_max_right ..).trans h)
    calc e.value.height + 1
      _ ≤ e.run + e.nesting * bound + 1 := Nat.succ_le_succ he
      _ = e.run + 1 + e.nesting * bound := Nat.add_right_comm ..
  | number | text | truth | falsehood | name => exact Nat.le_add_right 1 _
  | group _ inner _ ih =>
    simp only [longestRun, max_le_iff] at h
    have hinner := le_of_bracket (ih h.2) ((run_le_longestRun inner).trans h.2)
    calc (inSequence inner.value).height
      _ ≤ Expr.allHeight inner.value + 1 := Expr.height_inSequence_le _
      _ ≤ (inner.nesting + 1) * bound + 1 := Nat.succ_le_succ hinner
      _ = 1 + (inner.nesting + 1) * bound := Nat.add_comm ..
  | call _ _ items _ ih | table _ items _ ih =>
    have hitems := ih ((Nat.le_max_right ..).trans h)
    rw [run_items, Nat.zero_add] at hitems
    calc Expr.allHeight items.value + 1
      _ ≤ items.nesting * bound + 1 := Nat.succ_le_succ hitems
      _ = 1 + items.nesting * bound := Nat.add_comm ..
  | record _ entries _ ih =>
    have hentries := ih ((Nat.le_max_right ..).trans h)
    rw [run_entries, Nat.zero_add] at hentries
    calc Expr.fieldsHeight entries.value + 1
      _ ≤ entries.nesting * bound + 1 := Nat.succ_le_succ hentries
      _ = 1 + entries.nesting * bound := Nat.add_comm ..
  | lastItem e ih | lastLink e ih | endLink e _ ih | lastField _ _ _ e ih =>
    exact max_le (ih h) (Nat.zero_le _)
  | consItem e _ more ihe ihm | consLink e _ more ihe ihm | consField _ _ _ e _ more ihe ihm =>
    simp only [longestRun, max_le_iff] at h
    exact max_le_of_both (ihe h.1) (ihm h.2)
  | someItems d ih | someEntries d ih =>
    have hlist := le_of_bracket (ih h) ((run_le_longestRun d).trans h)
    exact hlist.trans (Nat.le_add_left ..)
  | noItems | noEntries => exact Nat.zero_le _

theorem run_pos (d : Derivation s) (hi : s ≠ .items) (he : s ≠ .entries) : 0 < d.run := by
  induction d <;> simp_all

theorem height_le_of_nesting (d : Derivation s) (hi : s ≠ .items) (he : s ≠ .entries)
    (hn : d.nesting < maxNesting) : s.height d.value ≤ maxNesting * d.longestRun := by
  have hrun := run_le_longestRun d
  have hpos := (run_pos d hi he).trans_le hrun
  exact (le_of_bracket (height_le d (Nat.le_refl _) hpos) hrun).trans (Nat.mul_le_mul_right _ hn)

theorem height_chain (d : Derivation .chain) (hn : d.nesting < maxNesting) :
    d.longestRun ≤ (inSequence d.value).height ∧
      (inSequence d.value).height ≤ maxNesting * d.longestRun + 1 := by
  refine ⟨(longestRun_le_height d).trans (Expr.allHeight_le_inSequence _), ?_⟩
  have hall := height_le_of_nesting d (by simp) (by simp) hn
  exact (Expr.height_inSequence_le _).trans (Nat.succ_le_succ hall)

end Derivation

def BodyDerivation.longestRun : BodyDerivation → Nat
  | equation _ e => e.longestRun
  | block _ inner _ => inner.longestRun

theorem BodyDerivation.height_value (b : BodyDerivation) (hn : b.nesting < maxNesting) :
    b.longestRun ≤ b.value.height ∧ b.value.height ≤ maxNesting * b.longestRun + 1 := by
  cases b with
  | equation _ e =>
    refine ⟨e.longestRun_le_height, ?_⟩
    exact (e.height_le_of_nesting (by simp) (by simp) hn).trans (Nat.le_succ _)
  | block _ inner _ => exact inner.height_chain hn

theorem DefinitionDerivation.body_infix (d : DefinitionDerivation) :
    d.body.tokens <:+: d.tokens := by
  refine ⟨d.name.1 :: d.open_.1 :: (paramTokens d.params ++ [d.close.1, d.colon.1, d.type.1]), [],
    ?_⟩
  simp [tokens]

theorem DefinitionsDerivation.exists_body (d : DefinitionsDerivation) {f : FunctionDef}
    (hf : f ∈ d.value) :
    ∃ b : BodyDerivation, b.tokens <:+: d.tokens ∧ b.value = f.body ∧ b.nesting ≤ d.nesting := by
  induction d with
  | last d =>
    obtain rfl := List.mem_singleton.mp hf
    exact ⟨d.body, d.body_infix, rfl, Nat.le_refl _⟩
  | ended d semicolon =>
    obtain rfl := List.mem_singleton.mp hf
    exact ⟨d.body, d.body_infix.trans (List.prefix_append ..).isInfix, rfl, Nat.le_refl _⟩
  | cons d semicolon more ih =>
    obtain rfl | hf := List.mem_cons.mp hf
    · exact ⟨d.body, d.body_infix.trans (List.prefix_append ..).isInfix, rfl, Nat.le_max_left ..⟩
    · obtain ⟨b, hb, hv, hn⟩ := ih hf
      have hmore : more.tokens <:+: (cons d semicolon more).tokens :=
        ((List.suffix_cons ..).trans (List.suffix_append ..)).isInfix
      exact ⟨b, hb.trans hmore, hv, hn.trans (Nat.le_max_right ..)⟩

end FormulaShell.Formula
