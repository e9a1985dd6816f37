import FormulaShell.Proofs.Formula.Yields
import FormulaShell.Proofs.Workbook.Recalculation
import FormulaShell.Proofs.Workbook.Request
import FormulaShell.Workbook.Execution

namespace FormulaShell.Workbook

open FormulaShell.Formula FormulaShell.Script FormulaShell.Text

variable {ε σ : Type}

/-- A workbook that is at work, with the recalculations that it has reported. -/
structure Desk (σ : Type) where
  workbook : Workbook σ
  reported : List Recalculation
  world : σ

/-- Work that may break off. What it has done by then stays done. -/
abbrev Work (ε σ : Type) := ExceptT ε (StateM (Desk σ))

namespace Work

def change (f : Workbook σ → Workbook σ) : Work ε σ Unit :=
  modify fun d => { d with workbook := f d.workbook }

def report (name : String) (v : Value) : Work ε σ Unit :=
  modify fun d => { d with reported := d.reported ++ [⟨name, v⟩] }

def workbook : Work ε σ (Workbook σ) := return (← get).workbook

def evaluateNow (e : Expr) (bindings : Record) (poll : Poll σ) :
    Work ε σ (Except Interrupt Value) := do
  let d ← get
  let (r, world) := Formula.evaluate (d.workbook.environment bindings poll) e d.world
  set { d with world := world }
  pure r

def orBreakOff {α : Type} : Except ε α → Work ε σ α
  | .ok a => pure a
  | .error e => throw e

def compute (source : String) (bindings : Record) (poll : Poll σ) :
    Work WorkbookError σ (Expr × Value) := do
  let e ← orBreakOff ((← workbook).prepare source bindings)
  let r ← evaluateNow e bindings poll
  let v ← orBreakOff (r.mapError .interrupted)
  pure (e, v)

def evaluate (source : String) (bindings : Record) (poll : Poll σ) :
    Work WorkbookError σ Value := return (← compute source bindings poll).2

def recalculate (dirty : List String) : List NamedFormula → Work ε σ Unit
  | [] => pure ()
  | f :: rest =>
    if f.dependencies.any dirty.contains then do
      let v := settledValue (← evaluateNow f.expr .empty .never)
      change (·.setValue f.name v)
      report f.name v
      recalculate (f.name :: dirty) rest
    else recalculate dirty rest

def update (name : String) (v : Value) : Work WorkbookError σ Unit := do
  if isName name then
    let lock ← orBreakOff (((← workbook).lockFor name v).mapError .assignment)
    change fun w => { w with bindings := w.bindings.insert name (.variable lock) }
    change (·.setValue name v)
    recalculate [name] (← workbook).formulas
  else throw (.assignment (.badName name))

def define (name source : String) : Work WorkbookError σ Unit := do
  if !isName name then throw (.definition (.badName name))
  else if (← workbook).bindings.contains name then throw (.definition (.nameInUse name))
  else
    let (e, v) ← compute source .empty .never
    change (·.setValue name v)
    change fun w => { w with bindings := w.bindings.insert name .formula }
    report name v
    change fun w => { w with formulas := w.formulas ++ [⟨name, e, w.dependencies e⟩] }

def addFunctions : List UserFunction → Work ε σ Unit
  | [] => pure ()
  | f :: rest => do
    change fun w => { w with functions := w.functions.insert f.name f }
    addFunctions rest

def defineFunctions (source : String) : Work (List WorkbookError) σ Unit := do
  let batch ← orBreakOff ((readDefinitions source).mapError fun e => [.unreadable e])
  match batch.flatMap (definitionErrors (← workbook) batch) with
  | [] => addFunctions (batch.filterMap resolve?)
  | errors => throw errors

def perform : Request σ → Work (List WorkbookError) σ Unit
  | .update name v => (update name v).adapt fun e => [e]
  | .define name source => (define name source).adapt fun e => [e]
  | .functions source => defineFunctions source
  | .evaluate source bindings poll => do
    let _ ← (evaluate source bindings poll).adapt fun e => [e]
    pure ()

def result (source : String) (poll : Poll σ) : Work String σ Value := do
  match ← (evaluate source .empty poll).adapt WorkbookError.message with
  | .error m => throw m
  | v => pure v

def execute (s : Statement) (poll : Poll σ) : StateM (Desk σ) (Option Outcome) :=
  match s with
  | .empty => pure none
  | .assignment name expression => do
    match ← (result expression poll).run with
    | .error m => pure (some (.failed m))
    | .ok v =>
      match ← (update name v).run with
      | .error e => pure (some (.failed e.message))
      | .ok () => pure (some (.updated name v))
  | .namedFormula name formula => do
    match ← (define name formula).run with
    | .error e => pure (some (.failed e.message))
    | .ok () => pure none
  | .functionDefinition source => do
    match ← (defineFunctions source).run with
    | .error es => pure (es.head?.map .refused)
    | .ok () => pure none
  | .evaluation expression => do
    match ← (result expression poll).run with
    | .error m => pure (some (.failed m))
    | .ok v => pure (some (.shown v))

end Work

def Desk.after (d : Desk σ) : Except ε (Changed σ) × σ → Except ε Unit × Desk σ
  | (.ok c, world) => (.ok (), ⟨c.workbook, d.reported ++ c.events, world⟩)
  | (.error e, world) => (.error e, { d with world := world })

theorem run_recalculate (dirty : List String) (fs : List NamedFormula) (d : Desk σ) :
    (Work.recalculate dirty fs : Work ε σ Unit).run.run d =
      let (c, world) := Workbook.recalculate dirty d.workbook d.world fs
      (.ok (), ⟨c.workbook, d.reported ++ c.events, world⟩) := by
  induction fs generalizing dirty d with
  | nil =>
    change (Except.ok (), d) = (Except.ok (), ⟨d.workbook, d.reported ++ [], d.world⟩)
    rw [List.append_nil]
  | cons f fs ih =>
    by_cases h : f.dependencies.any dirty.contains
    · rw [Work.recalculate, if_pos h, Workbook.recalculate, if_pos h]
      refine (ih (f.name :: dirty) ⟨d.workbook.refreshed d.world f,
        d.reported ++ [⟨f.name, settledValue (d.workbook.settle f.expr d.world).1⟩],
        (d.workbook.settle f.expr d.world).2⟩).trans ?_
      simp only [List.append_assoc, List.singleton_append]
      rfl
    · rw [Work.recalculate, if_neg h, Workbook.recalculate, if_neg h]
      exact ih dirty d

theorem run_workbook_bind {α : Type} (f : Workbook σ → Work ε σ α) (d : Desk σ) :
    (Work.workbook >>= f).run.run d = (f d.workbook).run.run d := rfl

theorem run_evaluateNow (e : Expr) (bindings : Record) (poll : Poll σ) (d : Desk σ) :
    (Work.evaluateNow e bindings poll : Work ε σ _).run.run d =
      (.ok (Formula.evaluate (d.workbook.environment bindings poll) e d.world).1,
        { d with world :=
          (Formula.evaluate (d.workbook.environment bindings poll) e d.world).2 }) := rfl

theorem run_update (name : String) (v : Value) (d : Desk σ) :
    (Work.update name v).run.run d = d.after (d.workbook.update name v d.world) := by
  by_cases hn : isName name
  · rw [Work.update, if_pos hn, Workbook.update, if_pos hn, run_workbook_bind]
    cases d.workbook.lockFor name v with
    | error e => rfl
    | ok lock =>
      exact run_recalculate [name] d.workbook.formulas
        { d with workbook := d.workbook.assigned name lock v }
  · rw [Work.update, if_neg hn, Workbook.update, if_neg hn]
    rfl

theorem run_compute (source : String) (bindings : Record) (poll : Poll σ) (d : Desk σ) :
    (Work.compute source bindings poll).run.run d =
      match d.workbook.prepare source bindings with
      | .error e => (.error e, d)
      | .ok e =>
        let (r, world) := Formula.evaluate (d.workbook.environment bindings poll) e d.world
        ((r.mapError .interrupted).map (e, ·), { d with world := world }) := by
  rw [Work.compute, run_workbook_bind]
  cases d.workbook.prepare source bindings with
  | error e => rfl
  | ok e =>
    simp only [Work.orBreakOff, pure_bind]
    rw [run_bind, run_evaluateNow]
    dsimp only
    rcases Formula.evaluate (d.workbook.environment bindings poll) e d.world with ⟨_ | _, world⟩
    · rfl
    · rfl

theorem run_evaluate (source : String) (bindings : Record) (poll : Poll σ) (d : Desk σ) :
    (Work.evaluate source bindings poll).run.run d =
      let (r, world) := d.workbook.evaluate source bindings poll d.world
      (r, { d with world := world }) := by
  rw [Work.evaluate, run_bind, run_compute, Workbook.evaluate]
  cases d.workbook.prepare source bindings with
  | error e => rfl
  | ok e =>
    dsimp only
    rcases Formula.evaluate (d.workbook.environment bindings poll) e d.world with ⟨_ | _, world⟩
    · rfl
    · rfl

theorem run_define (name source : String) (d : Desk σ) :
    (Work.define name source).run.run d = d.after (d.workbook.define name source d.world) := by
  by_cases hn : isName name
  · by_cases hb : d.workbook.bindings.contains name
    · simp only [Work.define, Workbook.define, hn, hb, Bool.not_true, Bool.false_eq_true, if_false,
        if_true, run_workbook_bind]
      rfl
    · simp only [Work.define, Workbook.define, hn, hb, Bool.not_true, Bool.false_eq_true, if_false,
        run_workbook_bind]
      rw [run_bind, run_compute]
      cases d.workbook.prepare source .empty with
      | error e => rfl
      | ok e =>
        dsimp only
        rw [← settle]
        rcases d.workbook.settle e d.world with ⟨i | v, world⟩
        · rfl
        · rfl
  · simp only [Work.define, Workbook.define, hn, Bool.not_false, if_true]
    rfl

theorem run_addFunctions (fs : List UserFunction) (d : Desk σ) :
    (Work.addFunctions fs : Work ε σ Unit).run.run d =
      (.ok (), { d with workbook := d.workbook.addFunctions fs }) := by
  induction fs generalizing d with
  | nil => rfl
  | cons f fs ih =>
    exact ih { d with workbook :=
      { d.workbook with functions := d.workbook.functions.insert f.name f } }

theorem run_defineFunctions (source : String) (d : Desk σ) :
    (Work.defineFunctions source).run.run d =
      match d.workbook.defineFunctions source with
      | .ok w => (.ok (), { d with workbook := w })
      | .error es => (.error es, d) := by
  rw [Work.defineFunctions, Workbook.defineFunctions]
  cases readDefinitions source with
  | error e => rfl
  | ok batch =>
    have hread : (Work.orBreakOff ((Except.ok batch).mapError fun e => [.unreadable e]) :
        Work (List WorkbookError) σ _) = pure batch := rfl
    rw [hread]
    simp only [pure_bind, Workbook.addDefinitions, run_workbook_bind]
    cases batch.flatMap (definitionErrors d.workbook batch) with
    | nil => exact run_addFunctions _ d
    | cons e es => rfl

theorem run_adapt {α : Type} {ε' : Type} (f : ε → ε') (work : Work ε σ α) (d : Desk σ) :
    (work.adapt f).run.run d =
      ((work.run.run d).1.mapError f, (work.run.run d).2) := rfl

theorem run_result (source : String) (poll : Poll σ) (d : Desk σ) :
    (Work.result source poll).run.run d =
      let (r, world) := d.workbook.resultOf source poll d.world
      (r, { d with world := world }) := by
  rw [Work.result, run_bind, run_adapt, run_evaluate, resultOf]
  rcases d.workbook.evaluate source .empty poll d.world with ⟨_ | v, world⟩
  · rfl
  · cases v <;> rfl

theorem run_then {α β : Type} (x : StateM (Desk σ) α) (f : α → StateM (Desk σ) β) (d : Desk σ) :
    (x >>= f).run d = (f (x.run d).1).run (x.run d).2 := rfl

/-- Statements at a desk come to what they come to with new workbooks. -/
theorem run_execute (s : Statement) (poll : Poll σ) (d : Desk σ) :
    (Work.execute s poll).run d =
      let (x, world) := d.workbook.execute s poll d.world
      (x.outcome, ⟨x.workbook, d.reported ++ x.events, world⟩) := by
  have silent (o : Option Outcome) (d : Desk σ) :
      (o, d) = (o, ⟨d.workbook, d.reported ++ [], d.world⟩) := by rw [List.append_nil]
  cases s with
  | empty => exact silent none d
  | assignment name expression =>
    rw [Work.execute, run_then, run_result, Workbook.execute, assign]
    rcases d.workbook.resultOf expression poll d.world with ⟨m | v, world⟩
    · exact silent _ _
    · dsimp only
      rw [run_then, run_update]
      dsimp only
      rcases d.workbook.update name v world with ⟨e | c, world⟩
      · exact silent _ _
      · rfl
  | namedFormula name formula =>
    rw [Work.execute, run_then, run_define, Workbook.execute]
    rcases d.workbook.define name formula d.world with ⟨e | c, world⟩
    · exact silent _ _
    · rfl
  | functionDefinition source =>
    rw [Work.execute, run_then, run_defineFunctions, Workbook.execute]
    cases d.workbook.defineFunctions source with
    | error es => exact silent _ _
    | ok w => exact silent _ _
  | evaluation expression =>
    rw [Work.execute, run_then, run_result, Workbook.execute]
    rcases d.workbook.resultOf expression poll d.world with ⟨m | v, world⟩
    · exact silent _ _
    · exact silent _ _

/-- What a request comes to, with all its errors. -/
def answer (w : Workbook σ) (world : σ) : Request σ → Except (List WorkbookError) (Changed σ) × σ
  | .update name v =>
    let (r, world) := w.update name v world
    (r.mapError ([·]), world)
  | .define name source =>
    let (r, world) := w.define name source world
    (r.mapError ([·]), world)
  | .functions source => ((w.defineFunctions source).map (⟨·, []⟩), world)
  | .evaluate source bindings poll =>
    let (r, world) := w.evaluate source bindings poll world
    ((r.mapError ([·])).map fun _ => ⟨w, []⟩, world)

theorem run_perform (r : Request σ) (d : Desk σ) :
    (Work.perform r).run.run d = d.after (d.workbook.answer d.world r) := by
  cases r with
  | update name v =>
    rw [Work.perform, run_adapt, run_update, answer]
    rcases d.workbook.update name v d.world with ⟨_ | _, _⟩ <;> rfl
  | define name source =>
    rw [Work.perform, run_adapt, run_define, answer]
    rcases d.workbook.define name source d.world with ⟨_ | _, _⟩ <;> rfl
  | functions source =>
    rw [Work.perform, run_defineFunctions, answer]
    cases d.workbook.defineFunctions source with
    | error es => rfl
    | ok w => simp only [Desk.after, Except.map, List.append_nil]
  | evaluate source bindings poll =>
    rw [Work.perform, run_bind, run_adapt, run_evaluate, answer]
    rcases d.workbook.evaluate source bindings poll d.world with ⟨_ | _, _⟩
    · rfl
    · change _ = (Except.ok (), (⟨d.workbook, d.reported ++ [], _⟩ : Desk σ))
      rw [List.append_nil]
      rfl

theorem workbook_perform (r : Request σ) (d : Desk σ) :
    ((Work.perform r).run.run d).2.workbook = (d.workbook.perform d.world r).1 := by
  rw [run_perform]
  cases r with
  | update name v =>
    rw [answer, perform]
    rcases d.workbook.update name v d.world with ⟨_ | _, _⟩ <;> rfl
  | define name source =>
    rw [answer, perform]
    rcases d.workbook.define name source d.world with ⟨_ | _, _⟩ <;> rfl
  | functions source =>
    rw [answer, perform]
    cases d.workbook.defineFunctions source <;> rfl
  | evaluate source bindings poll =>
    rw [answer, perform]
    rcases d.workbook.evaluate source bindings poll d.world with ⟨_ | _, _⟩ <;> rfl

/-- What can be done at a desk. -/
inductive Operation (σ : Type) where
  | request (r : Request σ)
  | host (name : String) (h : HostFunction σ)

namespace Desk

def start (world : σ) : Desk σ := ⟨.empty, [], world⟩

/-- The desk after an operation, whether it has come to its end or has broken off. -/
def operate (d : Desk σ) : Operation σ → Desk σ
  | .request r => ((Work.perform r).run.run d).2
  | .host name h => { d with workbook := d.workbook.addHost name h }

def operateAll (d : Desk σ) (ops : List (Operation σ)) : Desk σ := ops.foldl operate d

end Desk

end FormulaShell.Workbook
