import FormulaShell.Proofs.Script.Scan
import FormulaShell.Proofs.Text.Trim
import FormulaShell.Script.Accumulator

namespace FormulaShell.Script

open FormulaShell.Text

namespace Scan

theorem fresh_start : start.Fresh := nofun

theorem fresh_run_break (s : Scan) (cs : List Char) : (s.run (cs ++ ['\n'])).Fresh := by
  rw [run_append]
  intro _ hl
  cases hr : (s.run cs).region <;> simp [step, hr, take] at hl

/-- What has been read of a line, with its code so far in reverse. A slash that could open a comment
is the last of the code. -/
structure CodeSoFar (s : Scan) (p : Scan × List Char) : Prop where
  useful : p.1.useful = s.useful + usefulIn p.2
  slash : p.1.region = .code → p.1.last = some '/' → ∃ code, p.2 = '/' :: code

theorem CodeSoFar.step {s : Scan} {p : Scan × List Char} (h : CodeSoFar s p) (c : Char) :
    CodeSoFar s (codeStep p c) := by
  obtain ⟨t, code⟩ := p
  have huseful : t.useful = s.useful + usefulIn code := h.useful
  have hs := t.stepped c
  rw [codeStep]
  generalize t.step c = u at hs ⊢
  dsimp only
  cases hs with
  | inside hc _ hu hfresh =>
    rw [hc]
    exact ⟨hu.trans huseful, fun hcode hl => absurd hl (hfresh hcode)⟩
  | @opened r last hcode hl hr =>
    obtain ⟨before, rfl⟩ : ∃ before, code = '/' :: before := h.slash hcode hl
    have hregion : (t.beginComment r last).region.isComment = true := hr
    rw [hcode, hregion]
    refine ⟨?_, fun hcode hl => absurd hl (fresh_of_isComment hregion hcode)⟩
    change t.useful - 1 = s.useful + usefulIn before
    rw [usefulIn_cons, usefulIn_slash] at huseful
    omega
  | @taken r change hc hr _ =>
    rw [hc, region_take, hr]
    refine ⟨?_, fun _ hl => ?_⟩
    · rw [useful_take, usefulIn_cons c code]
      omega
    · obtain rfl : c = '/' := Option.some.inj hl
      exact ⟨code, rfl⟩

theorem CodeSoFar.foldl {s : Scan} {p : Scan × List Char} (h : CodeSoFar s p) (line : List Char) :
    CodeSoFar s (line.foldl codeStep p) := by
  induction line generalizing p with
  | nil => exact h
  | cons c line ih => exact ih (h.step c)

theorem fst_foldl_codeStep (line : List Char) (p : Scan × List Char) :
    (line.foldl codeStep p).1 = p.1.run line := by
  induction line generalizing p with
  | nil => rfl
  | cons c line ih =>
    have hs : (codeStep p c).1 = p.1.step c := by
      rw [codeStep]
      split <;> rfl
    rw [List.foldl_cons, ih, hs, run_cons]

theorem useful_run_line {s : Scan} (hs : s.Fresh) (line : List Char) :
    (s.run line).useful = s.useful + usefulIn (s.codeOf line) := by
  have hstart : CodeSoFar s (s, []) := ⟨rfl, fun hcode hl => absurd hl (hs hcode)⟩
  have h := (hstart.foldl line).useful
  rw [fst_foldl_codeStep] at h
  rw [h, codeOf, usefulIn, usefulIn, List.countP_reverse]

/-- The brackets that are open, or closed in excess, have all been counted, and a slash that could
open a comment besides. A depth that wraps around comes no further from zero. -/
structure Counts (s : Scan) : Prop where
  depth : s.depth.toInt.natAbs ≤ s.useful
  slash : s.region = .code → s.last = some '/' → s.depth.toInt.natAbs < s.useful

theorem natAbs_toInt_add_le (a b : Int32) :
    (a + b).toInt.natAbs ≤ a.toInt.natAbs + b.toInt.natAbs := by
  rw [Int32.toInt_add, Int.bmod]
  split <;> omega

theorem natAbs_depthChange_le (c : Char) : (depthChange c).toInt.natAbs ≤ usefulIn [c] := by
  unfold depthChange
  split
  next h => obtain rfl | rfl | rfl := h <;> decide
  next =>
    split
    next h => obtain rfl | rfl | rfl := h <;> decide
    next => exact Nat.zero_le _

theorem Counts.step {s : Scan} (h : s.Counts) (c : Char) : (s.step c).Counts := by
  have hdepth := h.depth
  have hs := s.stepped c
  generalize s.step c = u at hs ⊢
  cases hs with
  | inside _ hd hu hfresh =>
    refine ⟨?_, fun hcode hl => absurd hl (hfresh hcode)⟩
    rw [hd, hu]
    exact hdepth
  | opened hcode hl hr =>
    refine ⟨Nat.le_sub_one_of_lt (h.slash hcode hl), fun hcode hl => ?_⟩
    exact absurd hl (fresh_of_isComment hr hcode)
  | @taken r change _ _ hchange =>
    have hle : change.toInt.natAbs ≤ usefulIn [c] := by
      obtain rfl | rfl := hchange
      · exact Nat.zero_le _
      · exact natAbs_depthChange_le c
    refine ⟨?_, fun _ hl => ?_⟩
    · rw [depth_take, useful_take]
      have := natAbs_toInt_add_le s.depth change
      omega
    · obtain rfl : c = '/' := Option.some.inj hl
      obtain rfl : change = 0 := hchange.elim id id
      rw [depth_take, useful_take, usefulIn_slash, Int32.add_zero]
      omega

theorem Counts.run {s : Scan} (h : s.Counts) (cs : List Char) : (s.run cs).Counts := by
  induction cs generalizing s with
  | nil => exact h
  | cons c cs ih => exact ih (h.step c)

theorem counts_scan (cs : List Char) : (scan cs).Counts := by
  have hstart : start.Counts := ⟨Nat.le_refl 0, nofun⟩
  exact hstart.run cs

theorem useful_pos_of_depth {cs : List Char} (h : (scan cs).depth ≠ 0) : 0 < (scan cs).useful := by
  have hzero : (scan cs).depth.toInt ≠ 0 := fun hz => h (Int32.toInt_inj.mp hz)
  exact (Int.natAbs_pos.mpr hzero).trans_le (counts_scan cs).depth

end Scan

def Trails (mark code : List Char) : Prop :=
  ∃ front after, Blanks after ∧ code = front ++ mark ++ after

/-- An equals sign or an arrow comes last, but for blanks. -/
def TrailsAssignment (code : List Char) : Prop := Trails ['='] code ∨ Trails ['=', '>'] code

theorem endsWithAssignment_iff {code : List Char} :
    endsWithAssignment code ↔ TrailsAssignment code := by
  obtain ⟨ws, hws, hcode⟩ := exists_trimEnd code
  constructor
  · intro h
    rw [endsWithAssignment] at h
    split at h
    next rest hrev =>
      refine .inl ⟨rest.reverse, ws, hws, ?_⟩
      rw [hcode, trimEnd, hrev, List.reverse_cons]
    next rest hrev =>
      refine .inr ⟨rest.reverse, ws, hws, ?_⟩
      rw [hcode, trimEnd, hrev]
      simp
    next => cases h
  · rintro (⟨front, after, hafter, rfl⟩ | ⟨front, after, hafter, rfl⟩)
    all_goals
      have hdrop : after.reverse.dropWhile isBlank = [] := by
        rw [List.dropWhile_eq_nil_iff]
        exact fun c hc => hafter c (List.mem_reverse.mp hc)
      have heq : isBlank '=' = false := by decide
      have harrow : isBlank '>' = false := by decide
      simp [endsWithAssignment, List.dropWhile_append, hdrop, heq, harrow]

theorem usefulIn_pos_of_trailsAssignment {code : List Char} (h : TrailsAssignment code) :
    0 < usefulIn code := by
  have hm : '=' ∈ code := by
    obtain ⟨front, after, -, rfl⟩ | ⟨front, after, -, rfl⟩ := h <;> simp
  rw [usefulIn, List.countP_pos_iff]
  exact ⟨'=', hm, by decide⟩

end FormulaShell.Script
