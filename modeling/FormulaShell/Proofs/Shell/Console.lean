import FormulaShell.Proofs.Script.Statements
import FormulaShell.Shell.Run
import Mathlib.Computability.StateTransition

namespace FormulaShell.Shell

open FormulaShell.Script
open StateTransition (Reaches eval mem_eval reaches_eval)

/-- Where statements come from: the lines that are not read yet, and what the last statement still
has to import. No more is read from a source that is closed. -/
structure Source where
  lines : List Line
  imports : List String
  closed : Bool

def Source.close (s : Source) : Source := { s with imports := [], closed := true }

def scriptSource (text : String) : Source := ⟨(scriptLines text).map .ok, [], false⟩

/-- A shell in the middle of its work: the source that it reads from, and those that wait until this
one is done, the innermost first and the user's input last. -/
structure Console where
  session : Session
  events : List Event
  failure : Option String
  top : Source
  below : List Source

namespace Console

def start (o : Settings) (lines : List Line) : Console :=
  ⟨o.session, [], none, ⟨lines, o.scripts, o.batch⟩, []⟩

def depth (c : Console) : Nat := c.below.length

def say (c : Console) (events : List Event) : Console := { c with events := c.events ++ events }

def exit (c : Console) : Console :=
  { c with top := { c.top with closed := true }, below := c.below.map .close }

/-- Opens a script and puts it on top, if it can be read and may be nested so deep. -/
def openScript (files : Files Id) (c : Console) (path : String) : Console :=
  if maxImportDepth ≤ c.depth then c.say [.message (.failure (tooManyImports path))]
  else
    match files path with
    | .error e => c.say [.message (.failure (importFailure path e))]
    | .ok text => { c with top := scriptSource text, below := c.top :: c.below }

def asked (c : Console) (r : Reading) : List Event :=
  if c.below.isEmpty then r.prompts.map .prompt else []

def shown (interactive : Bool) (c : Console) (statement : List Char) : Event :=
  if c.below.isEmpty then given interactive statement else .echo statement

def executeStatement (interactive : Bool) (c : Console) (statement : List Char) : Console :=
  let (s, step) := c.session.execute statement .never
  let c := { c.say (c.shown interactive statement :: step.messages.map .message) with
    session := s, top := { c.top with imports := step.imports } }
  if step.exit then c.exit else c

def withReading (c : Console) (r : Reading) : Console :=
  { c.say (c.asked r) with top := { c.top with lines := r.rest } }

/-- Reads a statement and executes it. A source without another statement is closed. -/
def readNext (interactive : Bool) (c : Console) : Console :=
  let r := readStatement c.top.lines
  let c := c.withReading r
  match r.result with
  | .error reason => { c.exit with failure := some reason }
  | .ok none => { c with top := c.top.close }
  | .ok (some statement) => c.executeStatement interactive statement

/-- The imports of the last statement come first, then the next statement; a script that is closed
gives way to what has imported it. -/
def step (files : Files Id) (interactive : Bool) (c : Console) : Option Console :=
  match c.top.imports with
  | path :: more => some (openScript files { c with top := { c.top with imports := more } } path)
  | [] =>
    if c.top.closed then
      match c.below with
      | [] => none
      | s :: below => some { c with top := s, below := below }
    else some (c.readNext interactive)

def ended (c : Console) : Ended := ⟨c.events, c.failure, c.top.lines⟩

def take (c : Console) (k : Course) : Console :=
  let c := { c.say k.events with session := k.session }
  if k.exit then { c with top := c.top.close, below := c.below.map .close } else c

section

variable {files : Files Id} {interactive : Bool} {c d : Console}

theorem depth_openScript (path : String) (h : c.depth ≤ maxImportDepth) :
    (openScript files c path).depth ≤ maxImportDepth := by
  rw [openScript]
  split
  next => exact h
  next hd =>
    split
    next => exact h
    next => exact Nat.lt_of_not_le hd

theorem depth_exit (c : Console) : c.exit.depth = c.depth := List.length_map ..

theorem depth_executeStatement (statement : List Char) :
    (c.executeStatement interactive statement).depth = c.depth := by
  rw [executeStatement]
  dsimp only
  split
  · exact depth_exit _
  · rfl

theorem depth_readNext : (c.readNext interactive).depth = c.depth := by
  rw [readNext]
  dsimp only
  split
  · exact depth_exit _
  · rfl
  · exact depth_executeStatement _

/-- A step opens one import at most, and none beyond the limit. -/
theorem depth_step (hs : d ∈ c.step files interactive) (h : c.depth ≤ maxImportDepth) :
    d.depth ≤ maxImportDepth := by
  rw [step] at hs
  split at hs
  next path more _ =>
    obtain rfl := Option.some.inj hs
    exact depth_openScript path h
  next =>
    split at hs
    next =>
      split at hs
      next => cases hs
      next s below hb =>
        obtain rfl := Option.some.inj hs
        rw [depth, hb] at h
        exact Nat.le_of_succ_le h
    next =>
      obtain rfl := Option.some.inj hs
      rw [depth_readNext]
      exact h

theorem depth_reaches (hr : Reaches (step files interactive) c d) (h : c.depth ≤ maxImportDepth) :
    d.depth ≤ maxImportDepth := by
  induction hr with
  | refl => exact h
  | tail _ hs ih => exact depth_step hs ih

end

section

variable {files : Files Id} {interactive : Bool} {n : Nat}

theorem close_comp_close : Source.close ∘ Source.close = Source.close := rfl

theorem take_nil (c : Console) : c.take ⟨c.session, [], false⟩ = c := by simp [take, say]

theorem take_next (c : Console) (k : Course) (f : Session → Id Course) :
    c.take (k.next f).run = if k.exit then c.take k else (c.take k).take (f k.session).run := by
  obtain ⟨s, events, _ | _⟩ := k
  · simp [Course.next, take, say]
  · rfl

/-- Loading is what a console does that opens a script with so many imports still allowed. -/
def Loads (files : Files Id) (interactive : Bool) (n : Nat) : Prop :=
  ∀ (c : Console) (path : String), c.depth + n = maxImportDepth →
    Reaches (step files interactive) (openScript files c path)
      (c.take (load files n path c.session).run)

theorem Loads.imports (h : Loads files interactive n) (paths : List String) (s : Session)
    (events : List Event) (failure : Option String) (lines : List Line) (closed : Bool)
    (below : List Source) (hd : below.length + n = maxImportDepth) :
    Reaches (step files interactive) ⟨s, events, failure, ⟨lines, paths, closed⟩, below⟩
      (take ⟨s, events, failure, ⟨lines, [], closed⟩, below⟩
        (inOrder (load files n) paths s).run) := by
  induction paths generalizing s events with
  | nil =>
    rw [inOrder, Id.run_pure, take_nil]
    exact .refl
  | cons path more ih =>
    refine .head rfl ((h ⟨s, events, failure, ⟨lines, more, closed⟩, below⟩ path hd).trans ?_)
    rw [inOrder]
    change Reaches _ _ (take _ ((load files n path s).run.next (inOrder (load files n) more)).run)
    rw [take_next]
    obtain ⟨s', events', _ | _⟩ := (load files n path s).run
    · exact ih s' (events ++ events')
    · exact .refl

/-- After a statement the console does what its imports come to. An exit of the statement waits for
them. -/
theorem Loads.executeStatement (h : Loads files interactive n) {c : Console}
    (hd : c.depth + n = maxImportDepth) (hi : c.top.imports = []) (statement : List Char) :
    Reaches (step files interactive) (c.executeStatement interactive statement)
      (c.take (runStatement (load files n) (c.shown interactive statement) statement
        c.session).run) := by
  obtain ⟨s, events, failure, ⟨lines, imports, closed⟩, below⟩ := c
  obtain rfl : imports = [] := hi
  have hd : below.length + n = maxImportDepth := hd
  rw [Console.executeStatement, runStatement]
  dsimp only
  generalize shown interactive _ statement = shown
  rcases s.execute statement .never with ⟨s', messages, paths, exit⟩
  have hrun : (do
      let k ← inOrder (load files n) paths s'
      pure ⟨k.session, shown :: messages.map .message ++ k.events, k.exit || exit⟩ :
        Id Course).run =
      let k := (inOrder (load files n) paths s').run
      ⟨k.session, shown :: messages.map .message ++ k.events, k.exit || exit⟩ := rfl
  rw [hrun]
  cases exit with
  | false =>
    have hr := h.imports paths s' (events ++ shown :: messages.map .message) failure lines closed
      below hd
    generalize (inOrder (load files n) paths s').run = k at hr ⊢
    obtain ⟨s'', events', _ | _⟩ := k
    · simpa [take, say] using hr
    · simpa [take, say] using hr
  | true =>
    have hr := h.imports paths s' (events ++ shown :: messages.map .message) failure lines true
      (below.map .close) (by rwa [List.length_map])
    generalize (inOrder (load files n) paths s').run = k at hr ⊢
    obtain ⟨s'', events', _ | _⟩ := k
    · simpa [take, say, Console.exit, Source.close] using hr
    · simpa [take, say, Console.exit, Source.close, close_comp_close] using hr

theorem readNext_none (c : Console) (h : (readStatement c.top.lines).result = .ok none) :
    c.readNext interactive = { c.withReading (readStatement c.top.lines) with
      top := (c.withReading (readStatement c.top.lines)).top.close } := by
  rw [readNext]
  simp only [h]

theorem readNext_some (c : Console) {statement : List Char}
    (h : (readStatement c.top.lines).result = .ok (some statement)) :
    c.readNext interactive =
      (c.withReading (readStatement c.top.lines)).executeStatement interactive statement := by
  rw [readNext]
  simp only [h]

/-- A script is done when all its statements are, or at an exit, and then gives way to what is
below. -/
theorem Loads.script (h : Loads files interactive n) (ls : List (List Char)) (s : Session)
    (events : List Event) (failure : Option String) (source : Source) (below : List Source)
    (hd : (source :: below).length + n = maxImportDepth) :
    Reaches (step files interactive)
      ⟨s, events, failure, ⟨ls.map .ok, [], false⟩, source :: below⟩
      (take ⟨s, events, failure, source, below⟩
        (inOrder (fun st => runStatement (load files n) (.echo st) st) (statements ls) s).run) := by
  induction hn : ls.length using Nat.strongRecOn generalizing ls s events with
  | _ k ih =>
    subst hn
    have hread (r : Reading) :
        withReading ⟨s, events, failure, ⟨ls.map .ok, [], false⟩, source :: below⟩ r =
          ⟨s, events, failure, ⟨r.rest, [], false⟩, source :: below⟩ := by
      simp [withReading, say, asked]
    refine .head rfl ?_
    obtain ⟨hs, hr⟩ | ⟨st, rest, hs, hr, hrest⟩ := readOn_ok .empty ls
    · rw [readNext_none ⟨s, events, failure, ⟨ls.map .ok, [], false⟩, source :: below⟩ hr, hread]
      refine .head rfl ?_
      rw [statements, hs, inOrder, Id.run_pure, take_nil]
    · have hlt := @length_rest_lt (ls.map .ok) st hr
      rw [readStatement, hrest, List.length_map, List.length_map] at hlt
      have hnext : statements ls = st :: statements rest := hs
      rw [readNext_some ⟨s, events, failure, ⟨ls.map .ok, [], false⟩, source :: below⟩ hr, hread,
        readStatement, hrest, hnext, inOrder]
      refine (h.executeStatement
        (c := ⟨s, events, failure, ⟨rest.map .ok, [], false⟩, source :: below⟩) hd rfl st).trans ?_
      change Reaches _ _ (take _ ((runStatement (load files n) (.echo st) st s).run.next
        (inOrder (fun st => runStatement (load files n) (.echo st) st) (statements rest))).run)
      rw [take_next]
      change Reaches _ (take _ (runStatement (load files n) (.echo st) st s).run) _
      obtain ⟨s', events', _ | _⟩ := (runStatement (load files n) (.echo st) st s).run
      · exact ih _ hlt rest s' (events ++ events') rfl
      · exact .head rfl .refl

theorem loads (files : Files Id) (interactive : Bool) (n : Nat) : Loads files interactive n := by
  induction n with
  | zero =>
    intro c path hd
    have hdeep : maxImportDepth ≤ c.depth := hd.ge
    rw [openScript, if_pos hdeep, load]
    exact .refl
  | succ n ih =>
    intro c path hd
    have hdeep : ¬ maxImportDepth ≤ c.depth := by omega
    have hload : (load files (n + 1) path c.session).run =
        match files path with
        | .error e => failed c.session (importFailure path e)
        | .ok text => (inOrder (fun st => runStatement (load files n) (.echo st) st)
          (statements (scriptLines text)) c.session).run := by
      rw [load]
      change Id.run (match files path with | .error e => _ | .ok text => _) = _
      split <;> rfl
    rw [openScript, if_neg hdeep, hload]
    split
    next e _ => exact .refl
    next text _ =>
      have hd : (c.top :: c.below).length + n = maxImportDepth := by
        rw [← hd, depth, List.length_cons]
        omega
      exact ih.script (scriptLines text) c.session c.events c.failure c.top c.below hd

/-- When there is nothing to import and no line to read, the user's input has come to its end. -/
theorem mem_eval_closed (s : Session) (events : List Event) (failure : Option String)
    (lines : List Line) : ⟨s, events, failure, ⟨lines, [], true⟩, []⟩ ∈
      eval (step files interactive) ⟨s, events, failure, ⟨lines, [], true⟩, []⟩ :=
  mem_eval.mpr ⟨.refl, rfl⟩

/-- The conversation without what its termination needs. -/
theorem run_converse (lines : List Line) (s : Session) :
    (converse files interactive lines s).run =
      let r := readStatement lines
      let asked := r.prompts.map .prompt
      match r.result with
      | .error reason => ⟨asked, some reason, r.rest⟩
      | .ok none => ⟨asked, none, r.rest⟩
      | .ok (some statement) =>
        let k := (runStatement (load files maxImportDepth) (given interactive statement)
          statement s).run
        if k.exit then ⟨asked ++ k.events, none, r.rest⟩
        else
          let e := (converse files interactive r.rest k.session).run
          { e with events := asked ++ k.events ++ e.events } := by
  rw [converse]
  split
  next hr => simp only [hr, Id.run_pure]
  next hr => simp only [hr, Id.run_pure]
  next st hr =>
    simp only [hr, Id.run_bind]
    split <;> rfl

theorem eval_converse (lines : List Line) (s : Session) (events : List Event) :
    ∃ c ∈ eval (step files interactive) ⟨s, events, none, ⟨lines, [], false⟩, []⟩,
      c.ended = let e := (converse files interactive lines s).run
        ⟨events ++ e.events, e.failure, e.unread⟩ := by
  induction hn : lines.length using Nat.strongRecOn generalizing lines s events with
  | _ k ih =>
    subst hn
    have hread : Reaches (step files interactive) ⟨s, events, none, ⟨lines, [], false⟩, []⟩
        (readNext interactive ⟨s, events, none, ⟨lines, [], false⟩, []⟩) := .single rfl
    rw [reaches_eval hread, readNext, run_converse]
    dsimp only
    split
    next reason hr => exact ⟨_, mem_eval_closed _ _ _ _, rfl⟩
    next hr => exact ⟨_, mem_eval_closed _ _ _ _, rfl⟩
    next st hr =>
      have hrun := (loads files interactive maxImportDepth).executeStatement
        (c := withReading ⟨s, events, none, ⟨lines, [], false⟩, []⟩ (readStatement lines))
        rfl rfl st
      rw [reaches_eval hrun]
      change ∃ c ∈ eval (step files interactive) (take _
        (runStatement (load files maxImportDepth) (given interactive st) st s).run), _
      obtain ⟨s', events', _ | _⟩ :=
        (runStatement (load files maxImportDepth) (given interactive st) st s).run
      · have hih := ih _ (length_rest_lt hr) (readStatement lines).rest s'
          (events ++ (readStatement lines).prompts.map .prompt ++ events') rfl
        simpa [take, withReading, say, asked] using hih
      · exact ⟨_, mem_eval_closed _ _ _ _, by simp [ended, withReading, say, asked]⟩

theorem run_run (files : Files Id) (o : Settings) (interactive : Bool) (lines : List Line) :
    (run files o interactive lines).run =
      let k := (loadAll files o.scripts o.session).run
      if k.exit || o.batch then ⟨k.events, none, lines⟩
      else
        let e := (converse files interactive lines k.session).run
        { e with events := k.events ++ e.events } := by
  rw [run, Id.run_bind]
  dsimp only
  split <;> rfl

theorem eval_start (files : Files Id) (o : Settings) (interactive : Bool) (lines : List Line) :
    ∃ c ∈ eval (step files interactive) (start o lines),
      c.ended = (run files o interactive lines).run := by
  have hscripts := (loads files interactive maxImportDepth).imports o.scripts o.session [] none
    lines o.batch [] rfl
  rw [start, reaches_eval hscripts, run_run]
  change ∃ c ∈ eval (step files interactive) (take _ (loadAll files o.scripts o.session).run), _
  obtain ⟨s, events, _ | _⟩ := (loadAll files o.scripts o.session).run
  · cases o.batch with
    | true => exact ⟨_, mem_eval_closed _ _ _ _, by simp [ended, say]⟩
    | false => simpa [take, say] using eval_converse lines s events
  · exact ⟨_, mem_eval_closed _ _ _ _, by simp [ended, say]⟩

/-- Nothing more is read from the sources of the lowest `n + 1` levels, and at most the uppermost of
them still imports anything. -/
def Leaves (n : Nat) (c : Console) : Prop :=
  (c.top.closed ∧ (∀ s ∈ c.below, s = s.close) ∧ c.depth ≤ n ∧ (c.depth < n → c.top.imports = [])) ∨
    ∃ upper s lower, c.below = upper ++ s :: lower ∧ s.closed ∧ (∀ t ∈ lower, t = t.close) ∧
      lower.length = n

theorem Leaves.closed {c : Console} (h : Leaves n c) (hd : c.depth ≤ n) : c.top.closed := by
  obtain ⟨hc, -⟩ | ⟨upper, s, lower, hb, -, -, hl⟩ := h
  · exact hc
  · rw [depth, hb, List.length_append, List.length_cons, hl] at hd
    omega

theorem openScript_cases (files : Files Id) (c : Console) (path : String) :
    (∃ events, openScript files c path = c.say events) ∨
      ∃ source, openScript files c path = { c with top := source, below := c.top :: c.below } := by
  rw [openScript]
  split
  · exact .inl ⟨_, rfl⟩
  · split
    · exact .inl ⟨_, rfl⟩
    · exact .inr ⟨_, rfl⟩

theorem below_readNext (interactive : Bool) (c : Console) :
    (c.readNext interactive).below = c.below ∨
      (c.readNext interactive).below = c.below.map .close := by
  rw [readNext]
  dsimp only
  split
  · exact .inr rfl
  · exact .inl rfl
  · rw [Console.executeStatement]
    dsimp only
    split
    · exact .inr rfl
    · exact .inl rfl

theorem Leaves.step {c d : Console} (h : Leaves n c) (hs : d ∈ c.step files interactive) :
    Leaves n d := by
  rw [Console.step] at hs
  split at hs
  next path more hi =>
    obtain rfl := Option.some.inj hs
    obtain ⟨hc, hb, hd, hlow⟩ | ⟨upper, s, lower, hb, hs, hl, hn⟩ := h
    · have hn : c.below.length = n := by
        refine Nat.le_antisymm hd (Nat.le_of_not_lt fun hlt => ?_)
        rw [hlow hlt] at hi
        cases hi
      obtain ⟨events, ho⟩ | ⟨source, ho⟩ := openScript_cases files _ path
      · rw [ho]
        exact .inl ⟨hc, hb, hd, fun hlt => absurd hlt hn.not_lt⟩
      · rw [ho]
        exact .inr ⟨[], _, c.below, rfl, hc, hb, hn⟩
    · obtain ⟨events, ho⟩ | ⟨source, ho⟩ := openScript_cases files _ path
      · rw [ho]
        exact .inr ⟨upper, s, lower, hb, hs, hl, hn⟩
      · rw [ho]
        exact .inr ⟨_ :: upper, s, lower, congrArg (_ :: ·) hb, hs, hl, hn⟩
  next hi =>
    split at hs
    next hc =>
      split at hs
      next => cases hs
      next s below hbelow =>
        obtain rfl := Option.some.inj hs
        obtain ⟨-, hb, hd, -⟩ | ⟨upper, s', lower, hb, hs, hl, hn⟩ := h
        · rw [hbelow, List.forall_mem_cons] at hb
          rw [depth, hbelow] at hd
          refine .inl ⟨?_, hb.2, Nat.le_of_succ_le hd, fun _ => ?_⟩
          · exact hb.1 ▸ rfl
          · exact hb.1 ▸ rfl
        · rw [hbelow] at hb
          cases upper with
          | nil =>
            obtain ⟨rfl, rfl⟩ := List.cons.inj hb
            exact .inl ⟨hs, hl, hn.le, fun hlt => absurd hlt hn.not_lt⟩
          | cons u upper => exact .inr ⟨upper, s', lower, (List.cons.inj hb).2, hs, hl, hn⟩
    next hc =>
      obtain rfl := Option.some.inj hs
      obtain ⟨hclosed, -⟩ | ⟨upper, s, lower, hb, hs, hl, hn⟩ := h
      · exact absurd hclosed hc
      · obtain hr | hr := below_readNext interactive c
        · exact .inr ⟨upper, s, lower, hr.trans hb, hs, hl, hn⟩
        · refine .inr ⟨upper.map .close, s.close, lower.map .close, ?_, rfl, ?_, ?_⟩
          · rw [hr, hb, List.map_append, List.map_cons]
          · rintro _ ht
            obtain ⟨t, -, rfl⟩ := List.mem_map.mp ht
            rfl
          · rw [List.length_map, hn]

theorem leaves_executeStatement {c : Console} {statement : List Char}
    (h : (c.session.execute statement .never).2.exit) :
    Leaves c.depth (c.executeStatement interactive statement) := by
  rw [Console.executeStatement]
  rcases hx : c.session.execute statement .never with ⟨s, st⟩
  rw [hx] at h
  simp only [if_pos h]
  refine .inl ⟨rfl, fun t ht => ?_, (depth_exit _).le, fun hlt => absurd hlt (depth_exit _).not_lt⟩
  obtain ⟨t, -, rfl⟩ := List.mem_map.mp ht
  rfl

/-- The next step of the console is to read this statement from its source. -/
structure Reads (c : Console) (statement : List Char) : Prop where
  imports : c.top.imports = []
  unclosed : c.top.closed = false
  result : (readStatement c.top.lines).result = .ok (some statement)

end

/-- The shell does what the console does, which comes to an end, in whatever way files import one
another: after a statement first its imports, one after the other, then the next statement of the
same source. The console never has more imports open than may nest. After a statement that calls for
an exit nothing is read but the scripts that it imports itself. -/
theorem run_in_place (files : Files Id) (o : Settings) (interactive : Bool) (lines : List Line) :
    (∃ c ∈ eval (step files interactive) (start o lines),
      c.ended = (run files o interactive lines).run) ∧
    (∀ c : Console, Reaches (step files interactive) (start o lines) c → c.depth ≤ maxImportDepth) ∧
    ∀ (c : Console) statement, c.Reads statement → (c.session.execute statement .never).2.exit →
      ∀ d, Reaches (step files interactive) (c.readNext interactive) d → d.depth ≤ c.depth →
        d.top.closed := by
  refine ⟨eval_start files o interactive lines, fun c hr => depth_reaches hr (Nat.zero_le _), ?_⟩
  intro c statement hc hexit d hr hd
  have hread : Leaves c.depth (c.readNext interactive) := by
    rw [readNext_some c hc.result]
    exact leaves_executeStatement hexit
  refine Leaves.closed ?_ hd
  clear hd
  induction hr with
  | refl => exact hread
  | tail _ hs ih => exact ih.step hs

end Console

end FormulaShell.Shell
