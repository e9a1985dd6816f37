import FormulaShell.Proofs.Session.Calls
import FormulaShell.Shell.Run

namespace FormulaShell.Shell

open FormulaShell.Script
open Std.Do.Internal (Ensures)

variable {m : Type → Type} [Monad m]

def Course.preceded (events : List Event) (c : Course) : Course :=
  { c with events := events ++ c.events }

section

variable [LawfulMonad m] {s : Session}

theorem preceded_nil : Course.preceded [] = id := rfl

theorem preceded_preceded (xs ys : List Event) (x : m Course) :
    Course.preceded xs <$> Course.preceded ys <$> x = Course.preceded (xs ++ ys) <$> x := by
  rw [Functor.map_map]
  congr 1
  funext c
  simp [Course.preceded]

section

variable (f g : Session → m Course)

theorem next_false (events : List Event) :
    (⟨s, events, false⟩ : Course).next f = Course.preceded events <$> f s := by
  rw [Course.next, if_neg Bool.false_ne_true, ← bind_pure_comp]
  rfl

omit [LawfulMonad m] in
theorem next_true (events : List Event) :
    (⟨s, events, true⟩ : Course).next f = pure ⟨s, events, true⟩ := rfl

theorem next_preceded (events : List Event) (c : Course) :
    (c.preceded events).next f = Course.preceded events <$> c.next f := by
  obtain ⟨s, before, _ | _⟩ := c
  · rw [Course.preceded, next_false, next_false, preceded_preceded]
  · rw [Course.preceded, next_true, next_true, map_pure]
    rfl

theorem next_next (c : Course) :
    c.next f >>= (·.next g) = c.next fun s => f s >>= (·.next g) := by
  obtain ⟨s, events, _ | _⟩ := c
  · simp only [next_false, bind_map_left, next_preceded, map_bind]
  · rw [next_true, next_true, pure_bind, next_true]

theorem inOrder_append {α : Type} (f : α → Session → m Course) (xs ys : List α) (s : Session) :
    inOrder f (xs ++ ys) s = inOrder f xs s >>= (·.next (inOrder f ys)) := by
  induction xs generalizing s with
  | nil => rw [inOrder, pure_bind, next_false, preceded_nil, id_map, List.nil_append]
  | cons x xs ih =>
    rw [List.cons_append, inOrder, inOrder, bind_assoc]
    apply bind_congr
    intro c
    rw [next_next, funext ih]

theorem inOrder_singleton {α : Type} (f : α → Session → m Course) (x : α) (s : Session) :
    inOrder f [x] s = f x s := by
  rw [inOrder]
  have hend (c : Course) : c.next (inOrder f []) = pure c := by
    obtain ⟨s, events, _ | _⟩ := c
    · rw [next_false, inOrder, map_pure]
      simp [Course.preceded]
    · rfl
  simp only [hend, bind_pure]

end

section

def Course.Equipped (c : Course) : Prop := c.session.workbook.Equipped

variable {α : Type} {f g : α → Session → m Course}

theorem ensures_pure {β : Type} {P : β → Prop} {a : β} (h : P a) : Ensures P (pure a : m β) :=
  (Ensures.pure a).weaken fun _ ha => ha ▸ h

theorem ensures_next {c : Course} (hc : c.Equipped) {f : Session → m Course}
    (hf : ∀ s, s.workbook.Equipped → Ensures Course.Equipped (f s)) :
    Ensures Course.Equipped (c.next f) := by
  obtain ⟨s, events, _ | _⟩ := c
  · exact (hf s hc).bind fun d hd => ensures_pure hd
  · exact ensures_pure hc

theorem ensures_inOrder (hf : ∀ a s, s.workbook.Equipped → Ensures Course.Equipped (f a s))
    (xs : List α) {s : Session} (hs : s.workbook.Equipped) :
    Ensures Course.Equipped (inOrder f xs s) := by
  induction xs generalizing s with
  | nil => exact ensures_pure hs
  | cons x xs ih =>
    rw [inOrder]
    exact (hf x s hs).bind fun c hc => ensures_next hc fun s hs => ih hs

theorem ensures_runStatement {load : String → Session → m Course}
    (hload : ∀ path s, s.workbook.Equipped → Ensures Course.Equipped (load path s))
    (shown : Event) (source : List Char) {s : Session} (hs : s.workbook.Equipped) :
    Ensures Course.Equipped (runStatement load shown source s) := by
  rw [runStatement]
  have hexecute := Session.equipped_execute hs source
  exact (ensures_inOrder hload _ hexecute).bind fun c hc => ensures_pure hc

theorem ensures_load (files : Files m) (depth : Nat) (path : String) {s : Session}
    (hs : s.workbook.Equipped) : Ensures Course.Equipped (load files depth path s) := by
  induction depth generalizing path s with
  | zero => exact ensures_pure hs
  | succ depth ih =>
    rw [load]
    have hfile : Ensures (fun _ => True) (files path) :=
      ⟨⟨(fun text => ⟨text, trivial⟩) <$> files path, ⟨fun k => by simp⟩⟩⟩
    refine hfile.bind fun text _ => ?_
    cases text with
    | error e => exact ensures_pure hs
    | ok text =>
      exact ensures_inOrder (fun statement s hs => ensures_runStatement (fun path s hs => ih path hs)
        _ statement hs) _ hs

theorem inOrder_congr (hg : ∀ a s, s.workbook.Equipped → Ensures Course.Equipped (g a s))
    (h : ∀ a s, s.workbook.Equipped → f a s = g a s) (xs : List α) {s : Session}
    (hs : s.workbook.Equipped) : inOrder f xs s = inOrder g xs s := by
  induction xs generalizing s with
  | nil => rfl
  | cons x xs ih =>
    have hnext (c : Course) (hc : c.Equipped) : c.next (inOrder f xs) = c.next (inOrder g xs) := by
      obtain ⟨s, events, _ | _⟩ := c
      · rw [next_false, next_false, ih hc]
      · rfl
    rw [inOrder, inOrder, h x s hs]
    obtain ⟨y, hy⟩ := (hg x s hs).exists_refinement
    rw [← hy.bind_eq, ← hy.bind_eq]
    apply bind_congr
    rintro ⟨c, hc⟩
    exact hnext c hc

end

end

end FormulaShell.Shell
