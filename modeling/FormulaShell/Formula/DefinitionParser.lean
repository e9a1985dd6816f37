import FormulaShell.Formula.Parser

namespace FormulaShell.Formula

section

variable (eof : Token)

def typeName : Parser TypeName := fun ts =>
  match expect eof .name ts with
  | .error e => .error e
  | .ok t => .ok (t.map fun t => ⟨t.value, t.start.offset⟩)

def param : Parser Param := fun ts =>
  match expect eof .name ts with
  | .error e => .error e
  | .ok name =>
    match expect eof .colon name.rest with
    | .error e => .error e
    | .ok colon =>
      match typeName eof colon.rest with
      | .error e => .error e
      | .ok type => .ok (((name.follow colon).follow type).map fun t => ⟨name.value.value, t⟩)

def paramList : Parser (List Param) := fun ts =>
  match param eof ts with
  | .error e => .error e
  | .ok ⟨_, [], _⟩ => failAt eof (.expected .rightParen eof.kind eof.value)
  | .ok ⟨p, t :: rest, h⟩ =>
    if t.kind = .comma then
      match paramList rest with
      | .error e => .error e
      | .ok more => .ok ((more.map (p :: ·)).after h)
    else
      match expect eof .rightParen (t :: rest) with
      | .error e => .error e
      | .ok closing => .ok ((closing.map fun _ => [p]).under h)
termination_by ts => ts.length
decreasing_by exact Nat.lt_of_succ_lt h

def params : Parser (List Param)
  | t :: rest =>
    if t.kind = .rightParen then .ok (.used [] t rest) else paramList eof (t :: rest)
  | [] => paramList eof []

def body : Parser Expr := fun ts =>
  match expect eof .leftBrace ts with
  | .ok brace =>
    match closedChain eof (wholeExpression eof) .rightBrace brace.rest with
    | .error e => .error e
    | .ok r => .ok (brace.follow r)
  | .error _ =>
    match expect eof .equal ts with
    | .error e => .error e
    | .ok equal =>
      match wholeExpression eof equal.rest with
      | .error e => .error e
      | .ok r => .ok (equal.follow r)

def signature : Parser (Token × List Param × TypeName) := fun ts =>
  match expect eof .name ts with
  | .error e => .error e
  | .ok name =>
    match expect eof .leftParen name.rest with
    | .error e => .error e
    | .ok paren =>
      match params eof paren.rest with
      | .error e => .error e
      | .ok ps =>
        match expect eof .colon ps.rest with
        | .error e => .error e
        | .ok colon =>
          match typeName eof colon.rest with
          | .error e => .error e
          | .ok result =>
            .ok (((((name.follow paren).follow ps).follow colon).follow result).map fun r =>
              (name.value, ps.value, r))

def definition : Parser FunctionDef := fun ts =>
  match signature eof ts with
  | .error e => .error e
  | .ok s =>
    match body eof s.rest with
    | .error e => .error e
    | .ok b =>
      let (name, ps, result) := s.value
      .ok ((s.follow b).map fun e => ⟨name.value, name.start.offset, ps, result, e⟩)

/-- One definition or more; the last semicolon may end them. -/
def definitions (ts : List Token) : Except ParseError (List FunctionDef) :=
  match definition eof ts with
  | .error e => .error e
  | .ok ⟨d, [], _⟩ => .ok [d]
  | .ok ⟨d, t :: rest, _h⟩ =>
    if t.kind = .semicolon then
      if rest.isEmpty then .ok [d]
      else
        match definitions rest with
        | .error e => .error e
        | .ok more => .ok (d :: more)
    else finish [d] (t :: rest)
termination_by ts.length
decreasing_by exact Nat.lt_of_succ_lt _h

end

end FormulaShell.Formula
