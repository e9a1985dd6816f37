import FormulaShell.Formula.Arity
import FormulaShell.Formula.Expr
import FormulaShell.Value.Basic

namespace FormulaShell.Formula

structure UserFunction where
  name : String
  params : List (String × Kind)
  result : Kind
  body : Expr

def UserFunction.arity (f : UserFunction) : Arity := .exactly f.params.length

/-- A function that the host supplies. It may change the host's world `σ`. -/
structure HostFunction (σ : Type) where
  arity : Arity
  run : List Value → σ → Value × σ

inductive Interrupt where
  | cancelled
  | timedOut
  deriving DecidableEq, Repr

def Interrupt.message : Interrupt → String
  | cancelled => "evaluation cancelled"
  | timedOut => "evaluation timed out"

abbrev Poll (σ : Type) := σ → Option Interrupt × σ

def Poll.never {σ : Type} : Poll σ := fun w => (none, w)

def Poll.always {σ : Type} (answer : Option Interrupt) : Poll σ := fun w => (answer, w)

/-- The answers of an evaluation where a program text is at fault. -/
structure Faults where
  unknownName : String → Value
  unknownFunction : String → Value
  wrongArity : String → Arity → Nat → Value
  tooDeep : String → Value
  missingArgument : Value

def unknownNameMessage (name : String) : String :=
  "Name isn't valid. '" ++ name ++ "' isn't recognized."

def unknownFunctionMessage (name : String) : String :=
  "'" ++ name ++ "' is an unknown or unsupported function."

def wrongArityMessage (name : String) (arity : Arity) (received : Nat) : String :=
  "Invalid number of arguments to '" ++ name ++ "': received " ++ toString received
    ++ ", expected " ++ arity.describe ++ "."

def maxCallDepth : Nat := 64

def Faults.standard : Faults where
  unknownName name := .error (unknownNameMessage name)
  unknownFunction name := .error (unknownFunctionMessage name)
  wrongArity name arity received := .error (wrongArityMessage name arity received)
  tooDeep name :=
    .error ("Maximum call depth of " ++ toString maxCallDepth ++ " exceeded in '" ++ name ++ "'")
  missingArgument := .error "Argument missing."

structure Environment (σ : Type) where
  globals : Fields Value
  bindings : Record
  functions : Fields UserFunction
  hosts : Fields (HostFunction σ)
  poll : Poll σ
  faults : Faults

structure Progress (σ : Type) where
  visited : Nat
  world : σ

abbrev Eval (σ : Type) := ExceptT Interrupt (StateM (Progress σ))

/-- The scopes of names around an expression, innermost first. -/
abbrev Frames := List Record

def pollInterval : Nat := 128

/-- The counter that tells when to poll has 32 bits, and wraps around. -/
def Progress.ticks {σ : Type} (p : Progress σ) : UInt32 := .ofNat p.visited

section

variable {σ : Type} (env : Environment σ)

def pause : Eval σ Unit := do
  let p ← get
  let (answer, world) := env.poll p.world
  set { p with world := world }
  match answer with
  | some i => throw i
  | none => pure ()

/-- Counts a visit, and polls at every visit that completes an interval. -/
def visit : Eval σ Unit := do
  let p ← get
  let p := { p with visited := p.visited + 1 }
  set p
  if p.ticks.toNat % pollInterval = 0 then pause env else pure ()

def lookup (frames : Frames) (name : String) : Value :=
  match frames.findSome? (·.get? name) with
  | some v => v
  | none =>
    match env.bindings.get? name with
    | some v => v
    | none => (env.globals.get? name).getD (env.faults.unknownName name)

def callHost (h : HostFunction σ) (args : List Value) : Eval σ Value := do
  let p ← get
  let (v, world) := h.run args p.world
  set { p with world := world }
  pure v

end

end FormulaShell.Formula
