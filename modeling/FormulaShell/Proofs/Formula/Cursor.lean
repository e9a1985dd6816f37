import FormulaShell.Formula.DefinitionParser

namespace FormulaShell.Formula

/-- A fault that no text has, if the tables of operators and the lexer keep their promises. -/
def ParseFault.isInternal : ParseFault → Bool
  | unknownOperator _ | badNumber _ => true
  | _ => false

/-- What ends a reading before there is a result. -/
inductive Halt where
  | fault (e : ParseError) (h : e.fault.isInternal = false)
  | internal (e : ParseError)
  /-- No token is where the cursor should go, or where it should stay for another round. -/
  | outside (cursor : Nat)

abbrev Walk := StateT Nat (Except Halt)

namespace Walk

variable {α : Type}

def fail (t : Token) (fault : ParseFault) : Walk α :=
  if h : fault.isInternal = false then throw (.fault ⟨fault, t.start⟩ h)
  else throw (.internal ⟨fault, t.start⟩)

def noRound : Walk α := fun i => .error (.outside i)

def join (op : Token) (l r : Expr) : Walk Expr :=
  match binaryOp? op.kind with
  | some o => return .binary o l r
  | none => fail op (.unknownOperator op.value)

section

variable (tokens : List Token)

def peek : Walk Token := fun i =>
  match tokens[i]? with
  | some t => .ok (t, i)
  | none => .error (.outside i)

def advance : Walk Unit := fun i =>
  if i + 1 < tokens.length then .ok ((), i + 1) else .error (.outside (i + 1))

/-- The cursor does not go past the end of the text. -/
def popAny : Walk Token := do
  let t ← peek tokens
  if t.kind = .eof then return t
  else
    advance tokens
    return t

def pop (kind : TokenKind) : Walk Token := do
  let t ← peek tokens
  if t.kind = kind then
    advance tokens
    return t
  else fail t (.expected kind t.kind t.value)

def accept (kind : TokenKind) : Walk Bool := do
  let t ← peek tokens
  if t.kind = kind then
    let _ ← popAny tokens
    return true
  else return false

def leftRow (kinds : List TokenKind) (next : Walk Expr) : Nat → Expr → Walk Expr
  | 0, _ => noRound
  | rounds + 1, l => do
    let t ← peek tokens
    if t.kind ∈ kinds then
      let op ← popAny tokens
      let r ← next
      let both ← join op l r
      leftRow kinds next rounds both
    else return l

def rightRow (kinds : List TokenKind) (next : Walk Expr) : Nat → Walk Expr
  | 0 => noRound
  | rounds + 1 => do
    let l ← next
    let t ← peek tokens
    if t.kind ∈ kinds then
      let op ← popAny tokens
      let r ← rightRow kinds next rounds
      join op l r
    else return l

def singlePair (kinds : List TokenKind) (next : Walk Expr) : Walk Expr := do
  let l ← next
  let t ← peek tokens
  if t.kind ∈ kinds then
    let op ← popAny tokens
    let r ← next
    join op l r
  else return l

def level (l : Level) (next : Walk Expr) : Walk Expr :=
  match l.associativity with
  | .left => do
    let first ← next
    leftRow tokens l.kinds next tokens.length first
  | .right => rightRow tokens l.kinds next tokens.length
  | .none => singlePair tokens l.kinds next

def expression (operand : Walk Expr) : Walk Expr := levels.foldr (level tokens) operand

def chainRest (expr : Walk Expr) (stop : TokenKind) : Nat → Walk (List Expr)
  | 0 => noRound
  | rounds + 1 => do
    if ← accept tokens .semicolon then
      let t ← peek tokens
      if t.kind = stop then return []
      else
        let item ← expr
        let more ← chainRest expr stop rounds
        return item :: more
    else return []

def chain (expr : Walk Expr) (stop : TokenKind) : Walk Expr := do
  let first ← expr
  let more ← chainRest tokens expr stop tokens.length
  return chainOf first more

def closedChain (expr : Walk Expr) (close : TokenKind) : Walk Expr := do
  let inner ← chain tokens expr close
  let _ ← pop tokens close
  return inner

def following (item : α) (more : Walk (List α)) (close : TokenKind) : Walk (List α) := do
  if ← accept tokens .comma then
    let others ← more
    return item :: others
  else
    let _ ← pop tokens close
    return [item]

def itemList (expr : Walk Expr) (stop : TokenKind) : Nat → Walk (List Expr)
  | 0 => noRound
  | rounds + 1 => do
    let item ← expr
    following tokens item (itemList expr stop rounds) stop

def items (expr : Walk Expr) (stop : TokenKind) : Walk (List Expr) := do
  if ← accept tokens stop then return []
  else itemList tokens expr stop tokens.length

def field (expr : Walk Expr) (seen : List String) : Walk (String × Expr) := do
  let name ← pop tokens .name
  if name.value ∈ seen then fail name (.duplicateField name.value)
  else
    let _ ← pop tokens .colon
    let item ← expr
    return (name.value, item)

def fieldList (expr : Walk Expr) (seen : List String) : Nat → Walk (List (String × Expr))
  | 0 => noRound
  | rounds + 1 => do
    let f ← field tokens expr seen
    following tokens f (fieldList expr (f.1 :: seen) rounds) .rightBrace

def fields (expr : Walk Expr) : Walk (List (String × Expr)) := do
  let _ ← pop tokens .leftBrace
  if ← accept tokens .rightBrace then return []
  else fieldList tokens expr [] tokens.length

def nameOrCall (expr : Walk Expr) (t : Token) : Walk Expr := do
  if ← accept tokens .leftParen then
    let args ← items tokens expr .rightParen
    return .call t.value args t.start.offset
  else return .name t.value t.start.offset

def number (t : Token) : Walk Expr :=
  match Number.read? t.value with
  | some x => return .number x
  | none => fail t (.badNumber t.value)

def atom (expr : Walk Expr) : Walk Expr := do
  let t ← peek tokens
  match t.kind with
  | .number =>
    let _ ← popAny tokens
    number t
  | .string =>
    let _ ← popAny tokens
    return .text t.value
  | .trueWord =>
    let _ ← popAny tokens
    return .boolean true
  | .falseWord =>
    let _ ← popAny tokens
    return .boolean false
  | .name =>
    let _ ← popAny tokens
    nameOrCall tokens expr t
  | .leftParen =>
    let _ ← popAny tokens
    closedChain tokens expr .rightParen
  | .leftBrace =>
    let fs ← fields tokens expr
    return .record fs
  | .leftBracket =>
    let _ ← popAny tokens
    let es ← items tokens expr .rightBracket
    return .table es
  | .eof => fail t .noExpression
  | _ => fail t (.unexpected t.value)

def suffixes : Nat → Expr → Walk Expr
  | 0, _ => noRound
  | rounds + 1, e => do
    if ← accept tokens .percent then suffixes rounds (.percent e)
    else if ← accept tokens .dot then
      let name ← pop tokens .name
      suffixes rounds (.field e name.value)
    else return e

def suffixed (expr : Walk Expr) : Walk Expr := do
  let a ← atom tokens expr
  suffixes tokens tokens.length a

def operand : Nat → Walk Expr
  | 0 => do
    let t ← peek tokens
    fail t (.tooDeep maxNesting)
  | depth + 1 => do
    let t ← peek tokens
    match t.kind with
    | .minus =>
      let _ ← popAny tokens
      let e ← operand depth
      return .unary .neg e
    | .negation =>
      let _ ← popAny tokens
      let e ← operand depth
      return .unary .not e
    | .plus =>
      let _ ← popAny tokens
      operand depth
    | _ => suffixed tokens (expression tokens (operand depth))

def wholeExpression : Walk Expr := expression tokens (operand tokens maxNesting)

def finish (value : α) : Walk α := do
  let t ← peek tokens
  if t.kind = .eof then return value else fail t (.trailing t.value)

def formula : Walk Expr := do
  let e ← chain tokens (wholeExpression tokens) .eof
  finish tokens e

def typeName : Walk TypeName := do
  let t ← pop tokens .name
  return ⟨t.value, t.start.offset⟩

def param : Walk Param := do
  let name ← pop tokens .name
  let _ ← pop tokens .colon
  let type ← typeName tokens
  return ⟨name.value, type⟩

def paramList : Nat → Walk (List Param)
  | 0 => noRound
  | rounds + 1 => do
    let p ← param tokens
    following tokens p (paramList rounds) .rightParen

def params : Walk (List Param) := do
  if ← accept tokens .rightParen then return [] else paramList tokens tokens.length

def body : Walk Expr := do
  if ← accept tokens .leftBrace then closedChain tokens (wholeExpression tokens) .rightBrace
  else
    let _ ← pop tokens .equal
    wholeExpression tokens

def signature : Walk (Token × List Param × TypeName) := do
  let name ← pop tokens .name
  let _ ← pop tokens .leftParen
  let ps ← params tokens
  let _ ← pop tokens .colon
  let result ← typeName tokens
  return (name, ps, result)

def definition : Walk FunctionDef := do
  let (name, ps, result) ← signature tokens
  let e ← body tokens
  return ⟨name.value, name.start.offset, ps, result, e⟩

def definitionList : Nat → Walk (List FunctionDef)
  | 0 => noRound
  | rounds + 1 => do
    let d ← definition tokens
    if ← accept tokens .semicolon then
      let t ← peek tokens
      if t.kind = .eof then finish tokens [d]
      else
        let more ← definitionList rounds
        return d :: more
    else finish tokens [d]

def definitions : Walk (List FunctionDef) := definitionList tokens tokens.length

end

end Walk

end FormulaShell.Formula
