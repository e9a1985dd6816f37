namespace FormulaShell.Formula

inductive UnaryOp where
  | neg | not
  deriving DecidableEq, Repr

inductive BinaryOp where
  | or | and | eq | ne | lt | le | gt | ge | concat | add | sub | mul | div | pow
  deriving DecidableEq, Repr

def BinaryOp.symbol : BinaryOp → String
  | or => "||"
  | and => "&&"
  | eq => "="
  | ne => "<>"
  | lt => "<"
  | le => "<="
  | gt => ">"
  | ge => ">="
  | concat => "&"
  | add => "+"
  | sub => "-"
  | mul => "*"
  | div => "/"
  | pow => "^"

inductive Expr where
  | number (x : Float)
  | text (s : String)
  | boolean (b : Bool)
  | name (n : String) (offset : Nat)
  | record (fields : List (String × Expr))
  /-- A table with a single column. -/
  | table (items : List Expr)
  | unary (op : UnaryOp) (e : Expr)
  | percent (e : Expr)
  | binary (op : BinaryOp) (left right : Expr)
  | field (e : Expr) (name : String)
  | call (function : String) (args : List Expr) (offset : Nat)
  /-- Expressions in sequence; the last one gives the value. -/
  | chain (items : List Expr)
  deriving Inhabited

structure TypeName where
  name : String
  offset : Nat
  deriving DecidableEq, Repr

structure Param where
  name : String
  type : TypeName
  deriving DecidableEq, Repr

structure FunctionDef where
  name : String
  offset : Nat
  params : List Param
  result : TypeName
  body : Expr

namespace Expr

mutual

/-- The names that are read, in order, row arguments included. -/
def names : Expr → List String
  | number _ | text _ | boolean _ => []
  | name n _ => [n]
  | record fields => fieldNames fields
  | table items | chain items => allNames items
  | unary _ e | percent e | field e _ => names e
  | binary _ l r => names l ++ names r
  | call _ args _ => allNames args

def allNames : List Expr → List String
  | [] => []
  | e :: rest => names e ++ allNames rest

def fieldNames : List (String × Expr) → List String
  | [] => []
  | (_, e) :: rest => names e ++ fieldNames rest

end

mutual

def calls : Expr → List String
  | number _ | text _ | boolean _ | name _ _ => []
  | record fields => fieldCalls fields
  | table items | chain items => allCalls items
  | unary _ e | percent e | field e _ => calls e
  | binary _ l r => calls l ++ calls r
  | call f args _ => f :: allCalls args

def allCalls : List Expr → List String
  | [] => []
  | e :: rest => calls e ++ allCalls rest

def fieldCalls : List (String × Expr) → List String
  | [] => []
  | (_, e) :: rest => calls e ++ fieldCalls rest

end

def freeNames (e : Expr) : List String := e.names.eraseDups

def callNames (e : Expr) : List String := e.calls.eraseDups

end Expr

end FormulaShell.Formula
