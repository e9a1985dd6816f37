import FormulaShell.Formula.Check
import FormulaShell.Formula.Eval
import Mathlib.Logic.Relation

namespace FormulaShell.Formula

variable {σ : Type}

/-- An expression in the scopes around it. It is `named` unless it stands in an argument after the
first of a function over rows, where names may be fields of rows. -/
structure Site where
  named : Bool
  frames : Frames
  expr : Expr

namespace Site

/-- What an evaluation can go on to: the parts of an expression, those for rows in the scope of any
row, and the body of a function that is called, in any scope that has its parameters. -/
inductive Next (functions : Fields UserFunction) : Site → Site → Prop where
  | field {named frames fields p} : p ∈ fields →
      Next functions ⟨named, frames, .record fields⟩ ⟨named, frames, p.2⟩
  | item {named frames items e} : e ∈ items →
      Next functions ⟨named, frames, .table items⟩ ⟨named, frames, e⟩
  | link {named frames items e} : e ∈ items →
      Next functions ⟨named, frames, .chain items⟩ ⟨named, frames, e⟩
  | unary {named frames op e} : Next functions ⟨named, frames, .unary op e⟩ ⟨named, frames, e⟩
  | percent {named frames e} : Next functions ⟨named, frames, .percent e⟩ ⟨named, frames, e⟩
  | owner {named frames e name} :
      Next functions ⟨named, frames, .field e name⟩ ⟨named, frames, e⟩
  | left {named frames op l r} : Next functions ⟨named, frames, .binary op l r⟩ ⟨named, frames, l⟩
  | right {named frames op l r} : Next functions ⟨named, frames, .binary op l r⟩ ⟨named, frames, r⟩
  | firstArg {named frames f e args offset} :
      Next functions ⟨named, frames, .call f (e :: args) offset⟩ ⟨named, frames, e⟩
  | laterArg {named frames f first args offset e} : e ∈ args →
      Next functions ⟨named, frames, .call f (first :: args) offset⟩
        ⟨named && !isRowScoped f, frames, e⟩
  | rowArg {named frames f first args offset e} (row : Record) : isRowScoped f → e ∈ args →
      Next functions ⟨named, frames, .call f (first :: args) offset⟩
        ⟨false, rowFrame row :: frames, e⟩
  | body {named frames f args offset u scope} : functions.get? f = some u →
      (∀ p ∈ u.params, scope.contains p.1) →
      Next functions ⟨named, frames, .call f args offset⟩ ⟨true, [scope], u.body⟩

abbrev Reaches (functions : Fields UserFunction) : Site → Site → Prop :=
  Relation.ReflTransGen (Next functions)

end Site

/-- What a name in a call means, or the answer to a call that no function takes. -/
inductive Callee (σ : Type) where
  | user (f : UserFunction)
  | host (h : HostFunction σ)
  | builtin (b : Builtin)
  | fault (answer : Value)

section

variable (env : Environment σ)

def callee (name : String) (count : Nat) : Callee σ :=
  match env.functions.get? name with
  | some f =>
    if f.arity.admits count then .user f
    else .fault (env.faults.wrongArity f.name f.arity count)
  | none =>
    match env.hosts.get? name with
    | some h => .host h
    | none =>
      match Builtin.ofName? name with
      | none => .fault (env.faults.unknownFunction name)
      | some b =>
        if b.arity.admits count then .builtin b
        else .fault (env.faults.wrongArity name b.arity count)

theorem admits_exactly {n count : Nat} : (Arity.exactly n).admits count ↔ count = n := by
  rw [Arity.exactly, Arity.admits, Bool.and_eq_true, decide_eq_true_iff, Nat.eq_iff_le_and_ge,
    and_comm]
  exact and_congr_left' decide_eq_true_iff

theorem admits_arity {u : UserFunction} {count : Nat} :
    u.arity.admits count ↔ count = u.params.length := admits_exactly

theorem callee_of_admits {env : Environment σ} {name : String} {u : UserFunction} {count : Nat}
    (hu : env.functions.get? name = some u) (hn : u.arity.admits count) :
    callee env name count = .user u := by
  rw [callee, hu]
  exact if_pos hn

theorem callee_of_not_admits {env : Environment σ} {name : String} {u : UserFunction} {count : Nat}
    (hu : env.functions.get? name = some u) (hn : ¬ u.arity.admits count) :
    callee env name count = .fault (env.faults.wrongArity u.name u.arity count) := by
  rw [callee, hu]
  exact if_neg hn

/-- What the environment answers where a name is read or a function is called. -/
def Site.SameAnswer (env' : Environment σ) (s : Site) : Prop :=
  match s.expr with
  | .name n _ => lookup env s.frames n = lookup env' s.frames n
  | .call f args _ => callee env f args.length = callee env' f args.length
  | _ => True

variable (enter : Enter σ) (frames : Frames)

def callUser (f : UserFunction) (args : List Expr) : Eval σ Value :=
  if enter.isSome then do
    let scope ← bindArgs env enter frames .empty f.params args
    finishCall env enter f scope
  else pure (env.faults.tooDeep f.name)

def callBuiltin (b : Builtin) (args : List Expr) : Eval σ Value :=
  match b, args with
  | .ifThen, args => evalIf env enter frames args
  | .forAll, t :: e :: _ => do
    match rows "ForAll" (← eval env enter frames t) with
    | .error m => pure (.error m)
    | .ok rows =>
      let vs ← rows.mapM fun row => eval env enter (rowFrame row :: frames) e
      pure (.table (tableOfResults vs))
  | .filter, t :: conditions => do
    match rows "Filter" (← eval env enter frames t) with
    | .error m => pure (.error m)
    | .ok rows =>
      let kept ← filterRows
        (fun row => evalConditions env enter (rowFrame row :: frames) conditions) [] rows
      pure (valueOf (kept.map .table))
  | .sum, t :: more => do
    let first ← eval env enter frames t
    return valueOf ((← collect env enter frames "Sum" first more).bind total)
  | .max, t :: more => do
    let first ← eval env enter frames t
    return valueOf ((← collect env enter frames "Max" first more).map (extremeValue .gt))
  | .min, t :: more => do
    let first ← eval env enter frames t
    return valueOf ((← collect env enter frames "Min" first more).map (extremeValue .lt))
  | b, args => do
    let vs ← evalAll env enter frames args
    pure (applyStrict env b vs)

def Callee.call (name : String) (args : List Expr) : Callee σ → Eval σ Value
  | .user f => callUser env enter frames f args
  | .host h => do
    let vs ← evalAll env enter frames args
    applyHost env name h vs
  | .builtin b => callBuiltin env enter frames b args
  | .fault answer => pure answer

theorem eval_call (name : String) (args : List Expr) (offset : Nat) :
    eval env enter frames (.call name args offset) = (do
      visit env
      (callee env name args.length).call env enter frames name args) := by
  rw [eval, callee]
  congr 1
  funext _
  cases env.functions.get? name with
  | some f =>
    simp only
    split <;> rfl
  | none =>
    cases env.hosts.get? name with
    | some h => rfl
    | none =>
      cases Builtin.ofName? name with
      | none => rfl
      | some b =>
        simp only
        split <;> rfl

end

end FormulaShell.Formula
