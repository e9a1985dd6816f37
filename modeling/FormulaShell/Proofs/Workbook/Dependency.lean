import FormulaShell.Proofs.Formula.Locality
import FormulaShell.Workbook.Dependency
import FormulaShell.Workbook.FunctionTable
import Mathlib.Data.Set.Insert

namespace FormulaShell

open FormulaShell.Formula

theorem mem_addNames {n : String} {names more : List String} :
    n ∈ addNames names more ↔ n ∈ names ∨ n ∈ more := by
  induction more generalizing names with
  | nil => simp [addNames]
  | cons m more ih =>
    have hstep : n ∈ (if names.contains m then names else names ++ [m]) ↔ n ∈ names ∨ n = m := by
      by_cases hm : m ∈ names
      · have hc : names.contains m := by simpa using hm
        rw [if_pos hc]
        exact ⟨.inl, fun h => h.elim id fun h => h ▸ hm⟩
      · have hc : ¬ names.contains m := by simpa using hm
        rw [if_neg hc]
        simp
    have hcons : addNames names (m :: more) =
        addNames (if names.contains m then names else names ++ [m]) more := rfl
    rw [hcons, ih, hstep, List.mem_cons, or_assoc]

theorem mem_outerNames {u : UserFunction} {n : String} :
    n ∈ u.outerNames ↔ n ∈ u.body.names ∧ ¬ ∃ p ∈ u.params, p.1 = n := by
  rw [UserFunction.outerNames, List.mem_filter, Expr.freeNames, List.mem_eraseDups]
  simp only [List.all_eq_true, bne_iff_ne, ne_eq, not_exists, not_and]

variable {functions : Fields UserFunction}

theorem mem_reach {names pending : List String} {n : String} (hn : n ∈ names) :
    n ∈ reach functions names pending := by
  fun_induction reach functions names pending with
  | case1 => exact hn
  | case2 functions names f pending hf ih => exact ih hn
  | case3 functions names f pending u hf ih => exact ih (mem_addNames.mpr (.inl hn))

/-- What is reached from pending functions holds the names that all of them read, together with
those that they call in turn. -/
theorem closed_reach (names pending : List String) :
    ∃ S : Set String, (∀ f ∈ pending, f ∈ S) ∧
      Closed functions {n | n ∈ reach functions names pending} S := by
  fun_induction reach functions names pending with
  | case1 => exact ⟨∅, by simp, by simp, by simp⟩
  | case2 functions names f pending hf ih =>
    obtain ⟨S, hS, hc⟩ := ih
    refine ⟨insert f S, ?_, ?_, ?_⟩
    · intro g hg
      obtain rfl | hg := List.mem_cons.mp hg
      · exact Set.mem_insert g S
      · exact Set.mem_insert_of_mem f (hS g hg)
    · rintro g (rfl | hg) u hu c hm
      · rw [hf] at hu
        cases hu
      · exact Set.mem_insert_of_mem f (hc.calls g hg u hu c hm)
    · rintro g (rfl | hg) u hu n hm
      · rw [hf] at hu
        cases hu
      · exact hc.names g hg u hu n hm
  | case3 functions names f pending u hf ih =>
    obtain ⟨S, hS, hc⟩ := ih
    refine ⟨insert f S, ?_, ?_, ?_⟩
    · intro g hg
      obtain rfl | hg := List.mem_cons.mp hg
      · exact Set.mem_insert g S
      · exact Set.mem_insert_of_mem f (hS g (List.mem_append_right _ hg))
    · intro g hg u' hu c hm
      by_cases hgf : g = f
      · subst hgf
        rw [hf] at hu
        cases hu
        refine Set.mem_insert_of_mem g (hS c (List.mem_append_left _ ?_))
        simpa [Expr.callNames, List.mem_eraseDups] using hm
      · have hgS : g ∈ S := hg.resolve_left hgf
        exact Set.mem_insert_of_mem f
          (hc.calls g hgS u' ((Fields.get?_erase_ne hgf).trans hu) c hm)
    · intro g hg u' hu n hm
      by_cases hgf : g = f
      · subst hgf
        rw [hf] at hu
        cases hu
        by_cases hp : ∃ p ∈ u.params, p.1 = n
        · exact .inr hp
        · exact .inl (mem_reach (mem_addNames.mpr (.inr (mem_outerNames.mpr ⟨hm, hp⟩))))
      · have hgS : g ∈ S := hg.resolve_left hgf
        exact hc.names g hgS u' ((Fields.get?_erase_ne hgf).trans hu) n hm

/-- The names in `D` are all that the expression and the functions that it calls can read. -/
def Covers (functions : Fields UserFunction) (D : Set String) (e : Expr) : Prop :=
  (∀ n ∈ e.names, n ∈ D) ∧ ∃ S : Set String, (∀ f ∈ e.calls, f ∈ S) ∧ Closed functions D S

theorem Workbook.covers_dependencies {σ : Type} (w : Workbook σ) (e : Expr) :
    Covers w.functions {n | n ∈ w.dependencies e} e := by
  obtain ⟨S, hS, hc⟩ := @closed_reach w.functions e.freeNames e.callNames.reverse
  refine ⟨fun n hn => mem_reach ?_, S, fun f hf => hS f ?_, hc⟩
  · simpa [Expr.freeNames, List.mem_eraseDups] using hn
  · simpa [Expr.callNames, List.mem_eraseDups] using hf

/-- With other values for names that are no dependencies, an evaluation takes the same course; if
nothing interrupts it, it finishes with one value for both, whatever the worlds are. -/
theorem Workbook.evaluate_eq_of_dependencies {σ : Type} (w : Workbook σ) (hw : w.hosts = .empty)
    (e : Expr) (values : Fields Value)
    (h : ∀ n ∈ w.dependencies e, w.values.get? n = values.get? n) :
    let w' := { w with values := values }
    (∀ poll, Formula.evaluate (w.environment .empty poll) e =
        Formula.evaluate (w'.environment .empty poll) e) ∧
      ∃ v, ∀ world, (Formula.evaluate (w.environment .empty .never) e world).1 = .ok v ∧
        (Formula.evaluate (w'.environment .empty .never) e world).1 = .ok v := by
  intro w'
  obtain ⟨hn, S, hc, hS⟩ := w.covers_dependencies e
  have alike (poll : Poll σ) : Alike {n | n ∈ w.dependencies e} S (w.environment .empty poll)
      (w'.environment .empty poll) := by
    refine ⟨hw, hw, rfl, ?_, fun _ _ => rfl, hS⟩
    intro n hm
    have hg : w.values.get? n = values.get? n := h n hm
    simp only [lookup, List.findSome?_nil, environment, w', hg]
  exact ⟨fun poll => (alike poll).evaluate_eq hn hc rfl, (alike .never).evaluate hn hc rfl rfl⟩

def Workbook.parity : Workbook Unit :=
  (defineFunctions { empty with values := .ofList [("flag", .boolean true), ("n", .number 1.0)] }
    "Even(n: Number): Boolean = If(n = 0, flag, Odd(n - 1));
     Odd(n: Number): Boolean = If(n = 0, !flag, Even(n - 1))").toOption.getD .empty

def Workbook.parityCall : Expr :=
  (readFormula "ForAll([1, 2], \x7bp: Even(Value), q: x\x7d)").toOption.getD (.text "")

/-- The parameter `n` is no dependency, so the variable `n` may have any other value. -/
theorem Workbook.evaluate_parityCall :
    parity.dependencies parityCall = ["Value", "x", "flag"] ∧
    let w' := { parity with values := parity.values.insert "n" (.text "one") }
    (∀ poll, Formula.evaluate (parity.environment .empty poll) parityCall =
      Formula.evaluate (w'.environment .empty poll) parityCall) ∧
    ∃ v, ∀ world,
      (Formula.evaluate (parity.environment .empty .never) parityCall world).1 = .ok v ∧
      (Formula.evaluate (w'.environment .empty .never) parityCall world).1 = .ok v := by
  have hd : parity.dependencies parityCall = ["Value", "x", "flag"] := by decide +kernel
  have hh : parity.hosts = .empty := congrArg Fields.mk (List.isEmpty_iff.mp (by decide +kernel))
  refine ⟨hd, ?_⟩
  refine evaluate_eq_of_dependencies parity hh parityCall _ fun n hn => ?_
  have hne : "n" ≠ n := by
    rintro rfl
    rw [hd] at hn
    exact absurd hn (by decide)
  exact (Fields.get?_insert_ne hne).symm

end FormulaShell
