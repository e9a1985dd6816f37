import FormulaShell.Text.Blank

namespace FormulaShell.Script

open FormulaShell.Text

inductive Region where
  | code
  | doubleQuoted
  | singleQuoted
  | lineComment
  | blockComment
  deriving DecidableEq, Repr

def Region.isComment : Region → Bool
  | lineComment | blockComment => true
  | _ => false

structure Scan where
  region : Region
  /-- Opened less closed brackets. The count wraps around. -/
  depth : Int32
  /-- The character before, unless a mark of a block comment ends there. -/
  last : Option Char
  /-- Characters that are neither blank nor in a comment. -/
  useful : Nat
  deriving DecidableEq, Repr

def depthChange (c : Char) : Int32 :=
  if c = '(' ∨ c = '{' ∨ c = '[' then 1
  else if c = ')' ∨ c = '}' ∨ c = ']' then -1
  else 0

namespace Scan

def start : Scan := ⟨.code, 0, none, 0⟩

def take (s : Scan) (c : Char) (region : Region) (change : Int32) : Scan :=
  ⟨region, s.depth + change, some c, if isBlank c then s.useful else s.useful + 1⟩

/-- The second character of a comment's mark. The first has been counted as code. -/
def beginComment (s : Scan) (region : Region) (last : Option Char) : Scan :=
  ⟨region, s.depth, last, s.useful - 1⟩

/-- A quote inside of quotes is a mark like any other, so that doubled quotes need no rule. -/
def step (s : Scan) (c : Char) : Scan :=
  match s.region with
  | .lineComment =>
    { s with region := if c = '\n' then .code else .lineComment, last := some c }
  | .blockComment =>
    if s.last = some '*' ∧ c = '/' then { s with region := .code, last := none }
    else { s with last := some c }
  | .doubleQuoted => s.take c (if c = '"' then .code else .doubleQuoted) 0
  | .singleQuoted => s.take c (if c = '\'' then .code else .singleQuoted) 0
  | .code =>
    if s.last = some '/' ∧ c = '/' then s.beginComment .lineComment (some c)
    else if s.last = some '/' ∧ c = '*' then s.beginComment .blockComment none
    else if c = '"' then s.take c .doubleQuoted 0
    else if c = '\'' then s.take c .singleQuoted 0
    else s.take c .code (depthChange c)

def run (s : Scan) (cs : List Char) : Scan := cs.foldl step s

theorem run_append (s : Scan) (xs ys : List Char) : s.run (xs ++ ys) = (s.run xs).run ys :=
  List.foldl_append ..

def codeStep (p : Scan × List Char) (c : Char) : Scan × List Char :=
  let s := p.1.step c
  match p.1.region.isComment, s.region.isComment with
  | true, _ => (s, p.2)
  | false, true => (s, p.2.drop 1)
  | false, false => (s, c :: p.2)

def codeOf (s : Scan) (line : List Char) : List Char := (line.foldl codeStep (s, [])).2.reverse

end Scan

def scan (cs : List Char) : Scan := Scan.start.run cs

end FormulaShell.Script
