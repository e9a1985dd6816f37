import FormulaShell.Proofs.Workbook.Wellformed
import FormulaShell.Session.Basic

namespace FormulaShell

open FormulaShell.Formula FormulaShell.Script

namespace Workbook

/-- The functions that act on the session are there, and no other function goes by their names. -/
structure Equipped (w : Workbook Directives) : Prop where
  hosts : w.hosts = .ofList Directive.hosts
  functions : ∀ name, w.hosts.contains name → w.functions.get? name = none

variable {w w' : Workbook Directives} {world : Directives}

theorem Equipped.of_tables (h : Equipped w) (hf : w'.functions = w.functions)
    (hh : w'.hosts = w.hosts) : Equipped w' := by
  refine ⟨hh.trans h.hosts, fun name hn => ?_⟩
  rw [hf]
  exact h.functions name (hh ▸ hn)

theorem Equipped.step (h : Equipped w) {r : Request Directives} (hs : Step w world r w') :
    Equipped w' := by
  cases hs with
  | update hc =>
    obtain ⟨-, lock, -, rfl⟩ := update_ok hc
    exact h.of_tables sameTables_recalculate.functions sameTables_recalculate.hosts
  | define hc =>
    obtain ⟨-, -, e, v, -, -, rfl⟩ := define_ok hc
    exact h.of_tables rfl rfl
  | functions hw =>
    have hh := defineFunctions_hosts hw
    refine ⟨hh.trans h.hosts, fun name hn => ?_⟩
    rw [hh] at hn
    have hnone := h.functions name hn
    obtain ⟨f, hf⟩ := Option.isSome_iff_exists.mp hn
    rw [keeps_defineFunctions hw name (by simp [arity?, hnone, hf]), hnone]
  | same => exact h

theorem Equipped.executes (h : Equipped w) {x : Executed Directives} (hx : Executes w x) :
    Equipped x.workbook := by
  cases hx with
  | update hc => exact h.step (.update hc)
  | define hc => exact h.step (.define hc)
  | @functions source w' hw =>
    have hs : Step w [] (.functions source) w' := .functions hw
    exact h.step hs
  | same => exact h

theorem equipped_fresh : Equipped Session.freshWorkbook := by
  let w := Directive.hosts.foldl (fun w h => w.addHost h.1 h.2) (.empty : Workbook Directives)
  have hw : Equipped w := ⟨rfl, fun _ _ => rfl⟩
  change Equipped (match (w.update Session.optionsRecord Session.optionNames []).1 with
    | .ok c => c.workbook
    | .error _ => w)
  cases hu : (w.update Session.optionsRecord Session.optionNames []).1 with
  | error e => exact hw
  | ok c => exact hw.step (.update hu)

end Workbook

namespace Session

variable {s : Session}

theorem equipped_carryOut {p : Session × Step} (h : p.1.workbook.Equipped) (d : Directive) :
    (carryOut p d).1.workbook.Equipped := by
  cases d with
  | reset => exact Workbook.equipped_fresh
  | _ => exact h

/-- The directives that a statement calls for, in the order of the calls. -/
def called (s : Session) (source : List Char) : Directives :=
  (s.workbook.execute (classify source) .never []).2

def answered (s : Session) (source : List Char) : Session × Step :=
  let done := (s.workbook.execute (classify source) .never []).1
  ({ s with workbook := done.workbook },
    ⟨outcomeMessages s.options (s.called source) done.outcome
      ++ done.events.map (eventMessage s.options), [], false⟩)

theorem execute_eq (s : Session) (source : List Char) :
    s.execute source .never = (s.called source).foldl carryOut (s.answered source) := rfl

theorem equipped_answered (h : s.workbook.Equipped) (source : List Char) :
    (s.answered source).1.workbook.Equipped :=
  h.executes (s.workbook.executes_execute (classify source) .never [])

theorem equipped_execute (h : s.workbook.Equipped) (source : List Char) :
    (s.execute source .never).1.workbook.Equipped := by
  rw [execute_eq]
  have hp := equipped_answered h source
  generalize s.answered source = p at hp
  induction s.called source generalizing p with
  | nil => exact hp
  | cons d ds ih => exact ih _ (equipped_carryOut hp d)

def after (options : Options) (sources : List (List Char)) : Session :=
  sources.foldl (fun s source => (s.execute source .never).1) (start options)

theorem equipped_after (options : Options) (sources : List (List Char)) :
    (after options sources).workbook.Equipped := by
  have hstart : (start options).workbook.Equipped := Workbook.equipped_fresh
  rw [after]
  generalize start options = s at hstart
  induction sources generalizing s with
  | nil => exact hstart
  | cons source sources ih => exact ih _ (equipped_execute hstart source)

end Session

end FormulaShell
