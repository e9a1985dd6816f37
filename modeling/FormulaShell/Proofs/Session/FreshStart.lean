import FormulaShell.Proofs.Session.Calls

namespace FormulaShell

open FormulaShell.Formula FormulaShell.Script

namespace Workbook

variable {σ : Type}

/-- How the expression of a statement is evaluated. This may depend on more than a poll can see: an
evaluation may be stopped at any point, after any of the calls that it makes. -/
abbrev Evaluator (σ : Type) := Workbook σ → String → σ → Except WorkbookError Value × σ

def Evaluator.polling (poll : Poll σ) : Evaluator σ := fun w source world =>
  w.evaluate source .empty poll world

def executeBy (evaluator : Evaluator σ) (w : Workbook σ) (s : Statement) (world : σ) :
    Executed σ × σ :=
  match s with
  | .assignment name expression =>
    match evaluator w expression world with
    | (.error e, world) => (w.failure e.message, world)
    | (.ok (.error m), world) => (w.failure m, world)
    | (.ok v, world) =>
      match w.update name v world with
      | (.error e, world) => (w.failure e.message, world)
      | (.ok c, world) => (⟨c.workbook, some (.updated name v), c.events⟩, world)
  | .evaluation expression =>
    match evaluator w expression world with
    | (.error e, world) => (w.failure e.message, world)
    | (.ok (.error m), world) => (w.failure m, world)
    | (.ok v, world) => (⟨w, some (.shown v), []⟩, world)
  | s => w.execute s .never world

theorem executeBy_polling (poll : Poll σ) (w : Workbook σ) (s : Statement) (world : σ) :
    w.executeBy (.polling poll) s world = w.execute s poll world := by
  cases s with
  | assignment name expression =>
    rw [executeBy, Evaluator.polling, execute, assign, resultOf]
    rcases w.evaluate expression .empty poll world with ⟨_ | v, world'⟩
    · rfl
    · cases v <;> rfl
  | evaluation expression =>
    rw [executeBy, Evaluator.polling, execute, resultOf]
    rcases w.evaluate expression .empty poll world with ⟨_ | v, world'⟩
    · rfl
    · cases v <;> rfl
  | _ => rfl

theorem executes_executeBy (evaluator : Evaluator σ) (w : Workbook σ) (s : Statement) (world : σ) :
    Executes w (w.executeBy evaluator s world).1 := by
  cases s with
  | assignment name expression =>
    rw [executeBy]
    split
    · exact .same _
    · exact .same _
    · next v world' _ _ =>
      rcases hu : w.update name v world' with ⟨e | c, _⟩
      · exact .same _
      · exact .update (congrArg Prod.fst hu)
  | evaluation expression =>
    rw [executeBy]
    split <;> exact .same _
  | _ => exact executes_execute w _ .never world

end Workbook

/-- A session with what waits for it: recalculations that are reported, and directives that are
called for. The functions of its workbook have hold of the queues, also when it is thrown away. -/
structure QueuedSession where
  session : Session
  reports : List Recalculation
  waiting : Directives

/-- What can be done with a session. -/
inductive Act where
  | execute (evaluator : Workbook.Evaluator Directives) (source : List Char)
  | reset

/-- What an act has come to, and what can be seen of the session after it. -/
structure Sight where
  step : Option Step
  alignTables : Bool
  functionNames : List String

namespace QueuedSession

def start (options : Options) : QueuedSession := ⟨Session.start options, [], []⟩

/-- Reports on the old workbook are dropped. Directives go on waiting. -/
def reset (q : QueuedSession) : QueuedSession :=
  { q with session := q.session.reset, reports := [] }

def carryOut (p : QueuedSession × Step) (d : Directive) : QueuedSession × Step :=
  match d with
  | .reset => (p.1.reset, p.2)
  | d =>
    let (s, step) := Session.carryOut (p.1.session, p.2) d
    ({ p.1 with session := s }, step)

def execute (q : QueuedSession) (evaluator : Workbook.Evaluator Directives) (source : List Char) :
    QueuedSession × Step :=
  let (done, waiting) := q.session.workbook.executeBy evaluator (classify source) q.waiting
  let messages := Session.outcomeMessages q.session.options waiting done.outcome
    ++ (q.reports ++ done.events).map (Session.eventMessage q.session.options)
  waiting.foldl carryOut
    (⟨{ q.session with workbook := done.workbook }, [], []⟩, ⟨messages, [], false⟩)

def perform (q : QueuedSession) : Act → QueuedSession × Option Step
  | .execute evaluator source =>
    let (q, step) := q.execute evaluator source
    (q, some step)
  | .reset => (q.reset, none)

def after (q : QueuedSession) (acts : List Act) : QueuedSession :=
  acts.foldl (fun q act => (q.perform act).1) q

def seen (q : QueuedSession) : List Act → List Sight
  | [] => []
  | act :: rest =>
    let (q, step) := q.perform act
    ⟨step, q.session.options.alignTables, q.session.functionNames⟩ :: q.seen rest

end QueuedSession

namespace Session

def idle (s : Session) : QueuedSession := ⟨s, [], []⟩

end Session

namespace QueuedSession

theorem foldl_carryOut_idle (ds : Directives) (s : Session) (step : Step) :
    ds.foldl carryOut (s.idle, step) =
      ((ds.foldl Session.carryOut (s, step)).1.idle, (ds.foldl Session.carryOut (s, step)).2) := by
  induction ds generalizing s step with
  | nil => rfl
  | cons d ds ih =>
    have h : carryOut (s.idle, step) d =
        ((Session.carryOut (s, step) d).1.idle, (Session.carryOut (s, step) d).2) := by
      cases d <;> rfl
    rw [List.foldl_cons, h, ih]
    rfl

theorem execute_polling (s : Session) (poll : Poll Directives) (source : List Char) :
    s.idle.execute (.polling poll) source =
      ((s.execute source poll).1.idle, (s.execute source poll).2) := by
  rw [execute, Workbook.executeBy_polling]
  exact foldl_carryOut_idle _ _ _

/-- Nothing waits, the startup options are there for a reset, and the functions that act on the
session are there to be called. -/
structure Settled (options : Options) (q : QueuedSession) : Prop where
  reports : q.reports = []
  waiting : q.waiting = []
  startup : q.session.startup = options
  equipped : q.session.workbook.Equipped

variable {options : Options} {q : QueuedSession}

theorem settled_start (options : Options) : Settled options (start options) :=
  ⟨rfl, rfl, rfl, Workbook.equipped_fresh⟩

theorem Settled.eq_idle (h : Settled options q) : q = q.session.idle := by
  obtain ⟨s, reports, waiting⟩ := q
  obtain ⟨rfl, rfl, -, -⟩ := h
  rfl

theorem Settled.reset_eq (h : Settled options q) : q.reset = start options := by
  rw [h.eq_idle, ← h.startup]
  rfl

theorem Settled.reset (h : Settled options q) : Settled options q.reset := by
  rw [h.reset_eq]
  exact settled_start options

theorem Settled.carryOut {p : QueuedSession × Step} (h : Settled options p.1) (d : Directive) :
    Settled options (QueuedSession.carryOut p d).1 := by
  cases d with
  | reset => exact h.reset
  | _ => exact ⟨h.reports, h.waiting, h.startup, h.equipped⟩

theorem Settled.foldl_carryOut {p : QueuedSession × Step} (h : Settled options p.1)
    (ds : Directives) : Settled options (ds.foldl QueuedSession.carryOut p).1 := by
  induction ds generalizing p with
  | nil => exact h
  | cons d ds ih => exact ih (h.carryOut d)

theorem Settled.execute (h : Settled options q) (evaluator : Workbook.Evaluator Directives)
    (source : List Char) : Settled options (q.execute evaluator source).1 := by
  have hx := Workbook.executes_executeBy evaluator q.session.workbook (classify source) q.waiting
  rw [QueuedSession.execute]
  generalize q.session.workbook.executeBy evaluator (classify source) q.waiting = r at hx ⊢
  obtain ⟨done, waiting⟩ := r
  exact Settled.foldl_carryOut ⟨rfl, rfl, h.startup, h.equipped.executes hx⟩ waiting

theorem Settled.perform (h : Settled options q) (act : Act) :
    Settled options (q.perform act).1 := by
  cases act with
  | execute evaluator source => exact h.execute evaluator source
  | reset => exact h.reset

theorem Settled.after (h : Settled options q) (acts : List Act) :
    Settled options (q.after acts) := by
  induction acts generalizing q with
  | nil => exact h
  | cons act acts ih => exact ih (h.perform act)

theorem Settled.execute_reset (h : Settled options q) :
    (q.execute (.polling .never) "Reset()".toList).1 = start options := by
  have hs : "Reset()" = Directive.reset.statement := by decide +kernel
  rw [h.eq_idle, hs, execute_polling, Session.execute_statement h.equipped, ← h.startup]
  rfl

/-- After a reset, called from outside or by a statement that is not stopped, all that is seen of a
session is what is seen of a new one with the same startup options, whatever there was before. -/
theorem seen_after_reset (options : Options) (history later : List Act) :
    ((start options).after history).reset.seen later = (start options).seen later ∧
      (((start options).after history).execute (.polling .never) "Reset()".toList).1.seen later =
        (start options).seen later := by
  have h := (settled_start options).after history
  rw [h.reset_eq, h.execute_reset]
  exact ⟨rfl, rfl⟩

end QueuedSession

end FormulaShell
