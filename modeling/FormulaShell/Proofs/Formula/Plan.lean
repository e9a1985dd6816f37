import FormulaShell.Proofs.Formula.Site
import FormulaShell.Proofs.Formula.Yields

namespace FormulaShell.Formula

variable {σ α β : Type}

/-- What an evaluation has to ask for: the value of a part, whether one more call may be opened, the
value of the body of the function that is called then, and the answer of the host. -/
inductive Request (σ : Type) where
  | part (frames : Frames) (e : Expr)
  | room
  | body (scope : Record) (e : Expr)
  | host (h : HostFunction σ) (args : List Value)

namespace Request

abbrev Answer : Request σ → Type
  | part .. => Value
  | room => Bool
  | body .. => Value
  | host .. => Value

variable (value : Frames → Expr → Eval σ Value) (enter : Enter σ)

def answer : (r : Request σ) → Eval σ r.Answer
  | part frames e => value frames e
  | room => pure enter.isSome
  | body scope e =>
    match enter with
    | some run => run scope e
    -- A plan asks for no body when there has been no room.
    | none => pure .blank
  | host h args => callHost h args

end Request

inductive Plan (σ α : Type) where
  | done (a : α)
  | ask (r : Request σ) (next : r.Answer → Plan σ α)

namespace Plan

def bind : Plan σ α → (α → Plan σ β) → Plan σ β
  | done a, f => f a
  | ask r next, f => ask r fun x => (next x).bind f

instance : Monad (Plan σ) where
  pure := done
  bind := bind

def part (frames : Frames) (e : Expr) : Plan σ Value := ask (.part frames e) done

def room : Plan σ Bool := ask .room done

def body (scope : Record) (e : Expr) : Plan σ Value := ask (.body scope e) done

def host (h : HostFunction σ) (args : List Value) : Plan σ Value := ask (.host h args) done

section

variable (value : Frames → Expr → Eval σ Value) (enter : Enter σ)

def run : Plan σ α → Eval σ α
  | done a => pure a
  | ask r next => do
    let x ← r.answer value enter
    (next x).run

/-- The requests that running the plan comes to, each with the progress there is then. -/
def asked : Plan σ α → Progress σ → List (Request σ × Progress σ)
  | done _, _ => []
  | ask r next, p =>
    (r, p) ::
      match (r.answer value enter).run.run p with
      | (.ok x, q) => (next x).asked q
      | (.error _, _) => []

end

end Plan

section

variable (frames : Frames)

def planAll : List Expr → Plan σ (List Value)
  | [] => pure []
  | e :: rest => do
    let v ← .part frames e
    let vs ← planAll rest
    pure (v :: vs)

def planFields (done : Record) : List (String × Expr) → Plan σ Record
  | [] => pure done
  | (n, e) :: rest => do
    let v ← .part frames e
    planFields (done.insert n v) rest

def planChain (last : Value) : List Expr → Plan σ Value
  | [] => pure last
  | e :: rest => do
    let v ← .part frames e
    if v.isError then pure v else planChain v rest

def planIf : List Expr → Plan σ Value
  | [] => pure .blank
  | [otherwise] => .part frames otherwise
  | condition :: value :: rest => do
    match truth (← .part frames condition) with
    | .error m => pure (.error m)
    | .ok true => .part frames value
    | .ok false => planIf rest

def planConditions : List Expr → Plan σ (Except String Bool)
  | [] => pure (.ok true)
  | e :: rest => do
    match truth (← .part frames e) with
    | .error m => pure (.error m)
    | .ok false => pure (.ok false)
    | .ok true => planConditions rest

def planArgs (scope : Record) : List (String × Kind) → List Expr → Plan σ (Except Value Record)
  | (p, k) :: params, e :: rest => do
    let v ← .part frames e
    if v.isError then pure (.error v)
    else
      match coerce v k with
      | .error m => pure (.error (.error m))
      | .ok w => planArgs (scope.insert p w) params rest
  | _, _ => pure (.ok scope)

def planRows (e : Expr) : Table → Plan σ (List Value)
  | [] => pure []
  | row :: rest => do
    let v ← .part (rowFrame row :: frames) e
    let vs ← planRows e rest
    pure (v :: vs)

def planFilter (conditions : List Expr) (kept : Table) : Table → Plan σ (Except String Table)
  | [] => pure (.ok kept.reverse)
  | row :: rest => do
    match ← planConditions (rowFrame row :: frames) conditions with
    | .error m => pure (.error m)
    | .ok true => planFilter conditions (row :: kept) rest
    | .ok false => planFilter conditions kept rest

def planCollect (name : String) (first : Value) :
    List Expr → Plan σ (Except String (List Numeric))
  | [] =>
    match first with
    | .table rows =>
      if Table.isColumn rows then pure (numerics (columnValues rows))
      else pure (.error (name ++ " of a table needs a single-column table or a formula."))
    | v => pure (numerics [v])
  | [e] =>
    match first with
    | .table rows => do
      let vs ← planRows frames e rows
      pure (numerics vs)
    | v => do
      let w ← .part frames e
      pure (numerics [v, w])
  | e :: more =>
    match first with
    | .table _ => pure (.error (wrongArityMessage name ⟨1, some 2⟩ (more.length + 2)))
    | v => do
      let w ← .part frames e
      let vs ← planAll frames more
      pure (numerics (v :: w :: vs))

variable (env : Environment σ)

def planUser (f : UserFunction) (args : List Expr) : Plan σ Value := do
  if ← .room then
    match ← planArgs frames .empty f.params args with
    | .error v => pure v
    | .ok scope => return resultOf f (← .body scope f.body)
  else pure (env.faults.tooDeep f.name)

def planHost (name : String) (h : HostFunction σ) (args : List Expr) : Plan σ Value := do
  let vs ← planAll frames args
  match firstError? vs with
  | some e => pure e
  | none =>
    if h.arity.admits vs.length then .host h vs
    else pure (env.faults.wrongArity name h.arity vs.length)

def planBuiltin (b : Builtin) (args : List Expr) : Plan σ Value :=
  match b, args with
  | .ifThen, args => planIf frames args
  | .forAll, t :: e :: _ => do
    match rows "ForAll" (← .part frames t) with
    | .error m => pure (.error m)
    | .ok rows =>
      let vs ← planRows frames e rows
      pure (.table (tableOfResults vs))
  | .filter, t :: conditions => do
    match rows "Filter" (← .part frames t) with
    | .error m => pure (.error m)
    | .ok rows =>
      let kept ← planFilter frames conditions [] rows
      pure (valueOf (kept.map .table))
  | .sum, t :: more => do
    let first ← .part frames t
    return valueOf ((← planCollect frames "Sum" first more).bind total)
  | .max, t :: more => do
    let first ← .part frames t
    return valueOf ((← planCollect frames "Max" first more).map (extremeValue .gt))
  | .min, t :: more => do
    let first ← .part frames t
    return valueOf ((← planCollect frames "Min" first more).map (extremeValue .lt))
  | b, args => do
    let vs ← planAll frames args
    pure (applyStrict env b vs)

def planCall (name : String) (args : List Expr) : Callee σ → Plan σ Value
  | .user f => planUser frames env f args
  | .host h => planHost frames env name h args
  | .builtin b => planBuiltin frames env b args
  | .fault answer => pure answer

/-- What is to be done at an expression after the visit. -/
def plan : Expr → Plan σ Value
  | .number x => pure (.number x)
  | .text s => pure (.text s)
  | .boolean b => pure (.boolean b)
  | .name n _ => pure (lookup env frames n)
  | .record fields => return .record (← planFields frames .empty fields)
  | .table items => return .table (Table.ofValues (← planAll frames items))
  | .unary op e => return unary op (← .part frames e)
  | .percent e => return percent (← .part frames e)
  | .binary .and l r => do
    match truth (← .part frames l) with
    | .error m => pure (.error m)
    | .ok false => pure (.boolean false)
    | .ok true => return valueOf ((truth (← .part frames r)).map .boolean)
  | .binary .or l r => do
    match truth (← .part frames l) with
    | .error m => pure (.error m)
    | .ok true => pure (.boolean true)
    | .ok false => return valueOf ((truth (← .part frames r)).map .boolean)
  | .binary op l r => do
    let a ← .part frames l
    let b ← .part frames r
    pure (binary op a b)
  | .field e name => return fieldOf (← .part frames e) name
  | .chain items => planChain frames .blank items
  | .call name args _ => planCall frames env name args (callee env name args.length)

end

namespace Plan

variable {value : Frames → Expr → Eval σ Value} {enter : Enter σ}

@[simp]
theorem run_pure (a : α) : (pure a : Plan σ α).run value enter = pure a := rfl

@[simp]
theorem run_bind (a : Plan σ α) (f : α → Plan σ β) :
    (a >>= f).run value enter = a.run value enter >>= fun x => (f x).run value enter := by
  induction a with
  | done a => exact (pure_bind a fun x => (f x).run value enter).symm
  | ask r next ih =>
    change (r.answer value enter >>= fun x => (next x >>= f).run value enter) =
      (r.answer value enter >>= fun x => (next x).run value enter) >>= _
    rw [bind_assoc]
    exact congrArg _ (funext ih)

@[simp]
theorem run_part (frames : Frames) (e : Expr) :
    (part frames e).run value enter = value frames e := bind_pure (value frames e)

@[simp]
theorem run_room : (room : Plan σ Bool).run value enter = pure enter.isSome := rfl

@[simp]
theorem run_body (run : Record → Expr → Eval σ Value) (scope : Record) (e : Expr) :
    (body scope e).run value (some run) = run scope e := bind_pure (run scope e)

@[simp]
theorem run_host (h : HostFunction σ) (args : List Value) :
    (host h args).run value enter = callHost h args := bind_pure (callHost h args)

end Plan

section

variable (env : Environment σ) (enter : Enter σ) (frames : Frames)

theorem run_planAll (items : List Expr) :
    (planAll frames items).run (eval env enter) enter = evalAll env enter frames items := by
  induction items with
  | nil => rfl
  | cons e items ih => simp [planAll, evalAll, ih]

theorem run_planFields (done : Record) (fields : List (String × Expr)) :
    (planFields frames done fields).run (eval env enter) enter =
      evalFields env enter frames done fields := by
  induction fields generalizing done with
  | nil => rfl
  | cons p fields ih => simp [planFields, evalFields, ih]

theorem run_planChain (last : Value) (items : List Expr) :
    (planChain frames last items).run (eval env enter) enter =
      evalChain env enter frames last items := by
  induction items generalizing last with
  | nil => rfl
  | cons e items ih =>
    rw [planChain, evalChain, Plan.run_bind, Plan.run_part]
    congr 1
    funext v
    split
    · rfl
    · exact ih v

theorem run_planConditions (items : List Expr) :
    (planConditions frames items).run (eval env enter) enter =
      evalConditions env enter frames items := by
  induction items with
  | nil => rfl
  | cons e items ih =>
    rw [planConditions, evalConditions, Plan.run_bind, Plan.run_part]
    congr 1
    funext v
    obtain m | (_ | _) := truth v
    · rfl
    · rfl
    · exact ih

theorem run_planIf : ∀ args : List Expr,
    (planIf frames args).run (eval env enter) enter = evalIf env enter frames args
  | [] => rfl
  | [otherwise] => Plan.run_part frames otherwise
  | condition :: value :: rest => by
    rw [planIf, evalIf, Plan.run_bind, Plan.run_part]
    congr 1
    funext v
    obtain m | (_ | _) := truth v
    · rfl
    · exact run_planIf rest
    · exact Plan.run_part frames value

theorem run_planArgs (scope : Record) (params : List (String × Kind)) (args : List Expr) :
    (planArgs frames scope params args).run (eval env enter) enter =
      bindArgs env enter frames scope params args := by
  induction params generalizing scope args with
  | nil => cases args <;> rfl
  | cons q params ih =>
    cases args with
    | nil => rfl
    | cons e args =>
      rw [planArgs, bindArgs, Plan.run_bind, Plan.run_part]
      congr 1
      funext v
      by_cases hv : v.isError
      · simp [hv]
      · simp only [hv]
        cases coerce v q.2 with
        | error m => rfl
        | ok w => exact ih _ args

theorem run_planRows (e : Expr) (rows : Table) :
    (planRows frames e rows).run (eval env enter) enter =
      rows.mapM fun row => eval env enter (rowFrame row :: frames) e := by
  induction rows with
  | nil => rfl
  | cons row rows ih => simp [planRows, ih]

theorem run_planFilter (conditions : List Expr) (kept rows : Table) :
    (planFilter frames conditions kept rows).run (eval env enter) enter =
      filterRows (fun row => evalConditions env enter (rowFrame row :: frames) conditions) kept
        rows := by
  induction rows generalizing kept with
  | nil => rfl
  | cons row rows ih =>
    rw [planFilter, filterRows, Plan.run_bind, run_planConditions]
    congr 1
    funext r
    obtain m | (_ | _) := r
    · rfl
    · exact ih kept
    · exact ih (row :: kept)

theorem run_planCollect (name : String) (first : Value) (more : List Expr) :
    (planCollect frames name first more).run (eval env enter) enter =
      collect env enter frames name first more := by
  obtain _ | ⟨e, _ | ⟨f, more⟩⟩ := more
  · cases first with
    | table rows =>
      rw [planCollect, collect]
      split <;> rfl
    | _ => rfl
  · cases first with
    | table rows => simp [planCollect, collect, run_planRows]
    | _ => simp [planCollect, collect]
  · cases first with
    | table rows => rfl
    | _ => simp [planCollect, collect, run_planAll]

theorem run_planHost (name : String) (h : HostFunction σ) (args : List Expr) :
    (planHost frames env name h args).run (eval env enter) enter =
      evalAll env enter frames args >>= applyHost env name h := by
  rw [planHost, Plan.run_bind, run_planAll]
  congr 1
  funext vs
  rw [applyHost]
  cases firstError? vs with
  | some e => rfl
  | none =>
    dsimp only
    split
    · exact Plan.run_host h vs
    · rfl

theorem run_planUser (f : UserFunction) (args : List Expr) :
    (planUser frames env f args).run (eval env enter) enter =
      callUser env enter frames f args := by
  rw [planUser, callUser, Plan.run_bind, Plan.run_room, pure_bind]
  cases enter with
  | none => rfl
  | some run =>
    simp only [Option.isSome_some, if_true, Plan.run_bind, run_planArgs]
    congr 1
    funext scope
    obtain v | scope := scope
    · rfl
    · rw [finishCall, Plan.run_bind, Plan.run_body]
      rfl

theorem run_planBuiltin (b : Builtin) (args : List Expr) :
    (planBuiltin frames env b args).run (eval env enter) enter =
      callBuiltin env enter frames b args := by
  have strict : (do
      let vs ← planAll frames args
      pure (applyStrict env b vs) : Plan σ Value).run (eval env enter) enter = (do
      let vs ← evalAll env enter frames args
      pure (applyStrict env b vs)) := by
    simp [run_planAll]
  have aggregate (name : String) (result : Except String (List Numeric) → Value) (t : Expr)
      (more : List Expr) : (do
      let first ← .part frames t
      return result (← planCollect frames name first more) : Plan σ Value).run (eval env enter)
        enter = (do
      let first ← eval env enter frames t
      return result (← collect env enter frames name first more)) := by
    simp [run_planCollect]
  cases args with
  | nil =>
    cases b with
    | ifThen => exact run_planIf env enter frames []
    | _ => exact strict
  | cons t args =>
    cases b with
    | ifThen => exact run_planIf env enter frames (t :: args)
    | sum => exact aggregate "Sum" (fun ns => valueOf (ns.bind total)) t args
    | max => exact aggregate "Max" (fun ns => valueOf (ns.map (extremeValue .gt))) t args
    | min => exact aggregate "Min" (fun ns => valueOf (ns.map (extremeValue .lt))) t args
    | filter =>
      rw [planBuiltin, callBuiltin, Plan.run_bind, Plan.run_part]
      congr 1
      funext v
      obtain m | rows := rows "Filter" v
      · rfl
      · simp [run_planFilter]
    | forAll =>
      cases args with
      | nil => exact strict
      | cons e args =>
        rw [planBuiltin, callBuiltin, Plan.run_bind, Plan.run_part]
        congr 1
        funext v
        obtain m | rows := rows "ForAll" v
        · rfl
        · simp [run_planRows]
    | _ => exact strict

theorem run_planCall (name : String) (args : List Expr) (c : Callee σ) :
    (planCall frames env name args c).run (eval env enter) enter =
      c.call env enter frames name args := by
  cases c with
  | user f => exact run_planUser env enter frames f args
  | host h => exact run_planHost env enter frames name h args
  | builtin b => exact run_planBuiltin env enter frames b args
  | fault answer => rfl

/-- The evaluation of an expression is the visit, and then its plan. -/
theorem eval_eq_run (e : Expr) :
    eval env enter frames e = (do
      visit env
      (plan frames env e).run (eval env enter) enter) := by
  cases e with
  | number | text | boolean | name => rw [eval]; rfl
  | record fields => simp [eval, plan, run_planFields]
  | table items => simp [eval, plan, run_planAll]
  | unary op e => simp [eval, plan]
  | percent e => simp [eval, plan]
  | field e name => simp [eval, plan]
  | chain items => simp [eval, plan, run_planChain]
  | call name args offset => rw [eval_call, plan, run_planCall]
  | binary op l r =>
    cases op with
    | and | or =>
      rw [eval, plan, Plan.run_bind, Plan.run_part]
      congr 1
      funext _
      congr 1
      funext v
      obtain m | (_ | _) := truth v
      · rfl
      · simp
      · simp
    | _ => simp [eval, plan]

end

end FormulaShell.Formula
