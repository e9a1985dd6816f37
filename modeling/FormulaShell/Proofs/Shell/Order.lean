import FormulaShell.Proofs.Shell.Course
import Mathlib.Data.Set.List

namespace FormulaShell

namespace Directive

def stage : Directive → Nat
  | help | reset | setOption _ _ => 0
  | importScript _ => 1
  | exit => 2

/-- Directives by their stages, and within a stage in the order of the calls. -/
def staged (ds : Directives) : Directives :=
  ds.filter (·.stage = 0) ++ (ds.filter (·.stage = 1) ++ ds.filter (·.stage = 2))

theorem stage_cases (d : Directive) : d.stage = 0 ∨ d.stage = 1 ∨ d.stage = 2 := by
  cases d <;> simp [stage]

theorem staged_cons {d : Directive} {ds : Directives} (h : ∀ e ∈ ds, d.stage ≤ e.stage) :
    staged (d :: ds) = d :: staged ds := by
  have hnone : ∀ k < d.stage, ds.filter (·.stage = k) = [] := by
    intro k hk
    apply List.filter_eq_nil_iff.mpr
    intro e he
    have := h e he
    simp only [decide_eq_true_eq]
    omega
  obtain hd | hd | hd := d.stage_cases
  · simp [staged, hd]
  · simp [staged, hd, hnone 0]
  · simp [staged, hd, hnone 0, hnone 1]

theorem staged_eq_self {ds : Directives} (h : ds.Pairwise (·.stage ≤ ·.stage)) :
    staged ds = ds := by
  induction h with
  | nil => rfl
  | cons hd _ ih => rw [staged_cons hd, ih]

end Directive

namespace Session

open Directive

/-- Only directives of one stage can tell in which order they are carried out. -/
theorem carryOut_comm {d d' : Directive} (h : d.stage ≠ d'.stage) (p : Session × Step) :
    carryOut (carryOut p d) d' = carryOut (carryOut p d') d := by
  cases d <;> cases d' <;> first | exact absurd rfl h | rfl

theorem foldl_carryOut_comm {d : Directive} {ds : Directives} (h : ∀ e ∈ ds, e.stage ≠ d.stage)
    (p : Session × Step) :
    ds.foldl carryOut (carryOut p d) = carryOut (ds.foldl carryOut p) d := by
  induction ds generalizing p with
  | nil => rfl
  | cons e ds ih =>
    rw [List.forall_mem_cons] at h
    rw [List.foldl_cons, List.foldl_cons, carryOut_comm (Ne.symm h.1), ih h.2]

theorem foldl_carryOut_staged (ds : Directives) (p : Session × Step) :
    ds.foldl carryOut p = (staged ds).foldl carryOut p := by
  induction ds generalizing p with
  | nil => rfl
  | cons d ds ih =>
    have hne {k : Nat} (hk : k ≠ d.stage) : ∀ e ∈ ds.filter (·.stage = k), e.stage ≠ d.stage := by
      intro e he
      simp only [List.mem_filter, decide_eq_true_eq] at he
      rwa [he.2]
    rw [List.foldl_cons, ih]
    obtain hd | hd | hd := d.stage_cases
    · simp [staged, hd]
    · simp [staged, hd, foldl_carryOut_comm (hne (k := 0) (by simp [hd]))]
    · simp [staged, hd, foldl_carryOut_comm (hne (k := 0) (by simp [hd])),
        foldl_carryOut_comm (hne (k := 1) (by simp [hd]))]

end Session

namespace Shell

open Session

variable {m : Type → Type} [Monad m]

def finish (load : String → Session → m Course) (p : Session × Step) : m Course := do
  let c ← inOrder load p.2.imports p.1
  pure ⟨c.session, p.2.messages.map .message ++ c.events, c.exit || p.2.exit⟩

/-- What a directive comes to that is the only one of its statement. -/
def alone (load : String → Session → m Course) (d : Directive) (s : Session) : m Course :=
  finish load (carryOut (s, ⟨[], [], false⟩) d)

section

variable [LawfulMonad m] {load : String → Session → m Course} {s : Session}

theorem runStatement_eq (shown : Event) (source : List Char) :
    runStatement load shown source s =
      Course.preceded [shown] <$> finish load (s.execute source .never) := by
  rw [runStatement, finish, map_bind]
  apply bind_congr
  intro c
  rw [map_pure]
  rfl

theorem carryOut_stage_zero {d : Directive} (h : d.stage = 0) (s : Session) :
    ∃ s' messages, ∀ step, carryOut (s, step) d =
      (s', { step with messages := step.messages ++ messages }) := by
  cases d with
  | help => exact ⟨s, _, fun step => rfl⟩
  | reset => exact ⟨s.reset, [], fun step => by rw [List.append_nil]; rfl⟩
  | setOption name value =>
    exact ⟨{ s with options := s.options.set name value }, [], fun step => by
      rw [List.append_nil]
      rfl⟩
  | _ => cases h

theorem finish_early {early late : Directives} (h : ∀ d ∈ early, d.stage = 0)
    (hlate : ∀ s messages, finish load (late.foldl carryOut (s, ⟨messages, [], false⟩)) =
      Course.preceded (messages.map .message) <$> inOrder (alone load) late s)
    (s : Session) (messages : List Message) :
    finish load ((early ++ late).foldl carryOut (s, ⟨messages, [], false⟩)) =
      Course.preceded (messages.map .message) <$> inOrder (alone load) (early ++ late) s := by
  induction early generalizing s messages with
  | nil => exact hlate s messages
  | cons d early ih =>
    rw [List.forall_mem_cons] at h
    obtain ⟨s', more, hd⟩ := carryOut_stage_zero h.1 s
    have halone : alone load d s = pure ⟨s', more.map .message, false⟩ := by
      rw [alone, hd, finish, inOrder, pure_bind, List.append_nil]
      rfl
    rw [List.cons_append, List.foldl_cons, hd, ih h.2, inOrder, halone, pure_bind, next_false,
      preceded_preceded, List.map_append]

theorem foldl_imports (paths : List String) (s : Session) (step : Step) :
    (paths.map .importScript).foldl carryOut (s, step) =
      (s, { step with imports := step.imports ++ paths }) := by
  induction paths generalizing step with
  | nil => rw [List.append_nil]; rfl
  | cons path paths ih =>
    rw [List.map_cons, List.foldl_cons, carryOut, ih]
    simp

theorem foldl_exits (n : Nat) (s : Session) (step : Step) :
    (List.replicate n Directive.exit).foldl carryOut (s, step) =
      (s, { step with exit := step.exit || decide (0 < n) }) := by
  induction n generalizing step with
  | zero => simp
  | succ n ih =>
    rw [List.replicate_succ, List.foldl_cons, carryOut, ih]
    simp

theorem inOrder_imports (paths : List String) (s : Session) :
    inOrder (alone load) (paths.map .importScript) s = inOrder load paths s := by
  have halone (path : String) (s : Session) : alone load (.importScript path) s = load path s := by
    change (do
      let c ← inOrder load [path] s
      pure ⟨c.session, c.events, c.exit || false⟩) = load path s
    rw [inOrder_singleton]
    simp
  induction paths generalizing s with
  | nil => rfl
  | cons path paths ih => rw [List.map_cons, inOrder, inOrder, halone, funext ih]

theorem inOrder_exits (n : Nat) (s : Session) :
    inOrder (alone load) (List.replicate n Directive.exit) s =
      pure ⟨s, [], decide (0 < n)⟩ := by
  have halone : alone load .exit s = pure (⟨s, [], true⟩ : Course) := by
    change (do
      let c ← inOrder load [] s
      pure ⟨c.session, c.events, c.exit || true⟩) = pure (⟨s, [], true⟩ : Course)
    rw [inOrder, pure_bind]
    rfl
  cases n with
  | zero => rfl
  | succ n =>
    rw [List.replicate_succ, inOrder, halone, pure_bind, next_true]
    simp

theorem finish_late (paths : List String) (n : Nat) (s : Session) (messages : List Message) :
    finish load ((paths.map Directive.importScript ++ List.replicate n Directive.exit).foldl carryOut
        (s, ⟨messages, [], false⟩)) =
      Course.preceded (messages.map .message) <$>
        inOrder (alone load) (paths.map .importScript ++ List.replicate n Directive.exit) s := by
  have hcarry : (paths.map Directive.importScript ++ List.replicate n Directive.exit).foldl carryOut
      (s, ⟨messages, [], false⟩) = (s, ⟨messages, paths, decide (0 < n)⟩) := by
    rw [List.foldl_append, foldl_imports, foldl_exits]
    rfl
  rw [hcarry, finish, inOrder_append (alone load), inOrder_imports, map_bind]
  apply bind_congr
  intro c
  rw [funext (inOrder_exits n)]
  obtain ⟨s, events, _ | _⟩ := c
  · rw [next_false, map_pure, map_pure]
    simp [Course.preceded]
  · rw [next_true, map_pure]
    rfl

/-- What the directives of a statement come to is what they come to alone, stage after stage. -/
theorem finish_staged (ds : Directives) (s : Session) (messages : List Message) :
    finish load (ds.foldl carryOut (s, ⟨messages, [], false⟩)) =
      Course.preceded (messages.map .message) <$> inOrder (alone load) (Directive.staged ds) s := by
  rw [foldl_carryOut_staged]
  obtain ⟨paths, himports⟩ : ∃ paths : List String,
      paths.map Directive.importScript = ds.filter (·.stage = 1) := by
    have hmem : ds.filter (·.stage = 1) ∈ Set.range (List.map Directive.importScript) := by
      rw [Set.range_list_map]
      intro d hd
      cases d with
      | importScript path => exact ⟨path, rfl⟩
      | _ => simp [Directive.stage] at hd
    exact hmem
  have hexits : ds.filter (·.stage = 2) =
      List.replicate (ds.filter (·.stage = 2)).length Directive.exit := by
    apply List.eq_replicate_of_mem
    intro d hd
    cases d with
    | exit => rfl
    | _ => simp [Directive.stage] at hd
  refine finish_early (fun d hd => ?_) (fun s messages => ?_) s messages
  · simpa using (List.mem_filter.mp hd).2
  · rw [hexits, ← himports]
    exact finish_late paths _ s messages

/-- The statement of a directive, run on its own, less the event that shows it. -/
def separately (load : String → Session → m Course) (d : Directive) (s : Session) : m Course := do
  let c ← runStatement load (.echo d.statement.toList) d.statement.toList s
  pure { c with events := c.events.tail }

theorem separately_eq (hs : s.workbook.Equipped) (d : Directive) :
    separately load d s = alone load d s := by
  rw [separately, runStatement_eq, execute_statement hs, bind_map_left, alone]
  exact bind_pure _

/-- The statement comes to its own messages, and after them to what the statements of the
directives come to one after the other, up to an exit. -/
def ComesTo (load : String → Session → m Course) (shown : Event) (source : List Char) (s : Session)
    (ds : Directives) : Prop :=
  runStatement load shown source s = do
    let c ← inOrder (separately load) ds (s.answered source).1
    pure (c.preceded (shown :: (s.answered source).2.messages.map .message))

end

section

variable [LawfulMonad m] (files : Files m) (depth : Nat)

theorem inOrder_separately (ds : Directives) {s : Session} (hs : s.workbook.Equipped) :
    inOrder (separately (load files depth)) ds s = inOrder (alone (load files depth)) ds s := by
  refine inOrder_congr (fun d s hs => ?_) (fun d s hs => separately_eq hs d) ds hs
  rw [← separately_eq hs]
  exact (ensures_runStatement (fun path s hs => ensures_load files depth path hs) _ _ hs).bind
    fun c hc => ensures_pure hc

theorem comesTo_staged (shown : Event) (source : List Char) {s : Session}
    (hs : s.workbook.Equipped) :
    ComesTo (load files depth) shown source s (Directive.staged (s.called source)) := by
  have hsplit : s.answered source =
    ((s.answered source).1, ⟨(s.answered source).2.messages, [], false⟩) := rfl
  rw [ComesTo, runStatement_eq, execute_eq, hsplit, finish_staged, preceded_preceded,
    inOrder_separately files depth _ (equipped_answered hs source), bind_pure_comp]
  rfl

/-- In every session that statements lead to, a statement comes to what the statements of its
directives come to, stage after stage. That is the order of the calls if no directive is called for
before one of an earlier stage. -/
theorem directives_by_stages (options : Options) (earlier : List (List Char)) (shown : Event)
    (source : List Char) :
    ComesTo (load files depth) shown source (after options earlier)
        (Directive.staged ((after options earlier).called source)) ∧
      (((after options earlier).called source).Pairwise (·.stage ≤ ·.stage) →
        ComesTo (load files depth) shown source (after options earlier)
          ((after options earlier).called source)) := by
  have h := comesTo_staged files depth shown source (equipped_after options earlier)
  refine ⟨h, fun hsorted => ?_⟩
  rwa [Directive.staged_eq_self hsorted] at h

end

def soleScript : Files Id := fun _ => .ok "Set(x, 1)\nHelp()\n"

def setup : List Char := "Option(\"FormatTable\", false); Import(\"a.fx\"); Exit()".toList

theorem setup_in_order :
    ((after ⟨true⟩ []).called setup).Pairwise (·.stage ≤ ·.stage) ∧
      ComesTo (load soleScript 1) (.echo setup) setup (after ⟨true⟩ [])
        [.setOption .formatTable false, .importScript "a.fx", .exit] := by
  have hcalled : (after ⟨true⟩ []).called setup =
      [.setOption .formatTable false, .importScript "a.fx", .exit] := by decide +kernel
  have hsorted : ((after ⟨true⟩ []).called setup).Pairwise (·.stage ≤ ·.stage) := by
    rw [hcalled]
    decide
  exact ⟨hsorted, hcalled ▸ (directives_by_stages soleScript 1 ⟨true⟩ [] (.echo setup) setup).2 hsorted⟩

/-- A reset goes before an import that was called for first, and does not undo it. -/
example :
    (runStatement (load soleScript 1) (.echo []) "Import(\"a.fx\"); Reset()".toList
      (after ⟨true⟩ [])).session.workbook.values.contains "x" = true ∧
    (inOrder (separately (load soleScript 1)) [.importScript "a.fx", .reset]
      (after ⟨true⟩ [])).session.workbook.values.contains "x" = false := by decide +kernel

end Shell

end FormulaShell
