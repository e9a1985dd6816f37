import FormulaShell.Formula.Expr
import FormulaShell.Formula.Token
import FormulaShell.Number.Read
import FormulaShell.Parsed

namespace FormulaShell.Formula

open FormulaShell.Text

inductive ParseFault where
  | expected (wanted found : TokenKind) (text : String)
  | unknownOperator (text : String)
  | badNumber (text : String)
  | noExpression
  | unexpected (text : String)
  | duplicateField (name : String)
  | tooDeep (limit : Nat)
  | trailing (text : String)
  deriving DecidableEq, Repr

structure ParseError where
  fault : ParseFault
  start : Position
  deriving DecidableEq, Repr

abbrev Parser (α : Type) := (ts : List Token) → Except ParseError (Parsed Token α ts.length)

/-- A parser that may use no token. -/
abbrev Tail (α : Type) := (ts : List Token) → Except ParseError (Parsed Token α (ts.length + 1))

inductive Associativity where
  | left | right | none
  deriving DecidableEq, Repr

/-- Operators that bind equally. -/
structure Level where
  kinds : List TokenKind
  associativity : Associativity
  deriving DecidableEq, Repr

/-- Weakest first. -/
def levels : List Level :=
  [⟨[.disj], .left⟩,
   ⟨[.conj], .left⟩,
   ⟨[.equal, .notEqual, .less, .lessEqual, .greater, .greaterEqual], .none⟩,
   ⟨[.ampersand], .left⟩,
   ⟨[.plus, .minus], .left⟩,
   ⟨[.star, .slash], .left⟩,
   ⟨[.caret], .right⟩]

def binaryOp? : TokenKind → Option BinaryOp
  | .disj => some .or
  | .conj => some .and
  | .equal => some .eq
  | .notEqual => some .ne
  | .less => some .lt
  | .lessEqual => some .le
  | .greater => some .gt
  | .greaterEqual => some .ge
  | .ampersand => some .concat
  | .plus => some .add
  | .minus => some .sub
  | .star => some .mul
  | .slash => some .div
  | .caret => some .pow
  | _ => none

def maxNesting : Nat := 100

section

variable (eof : Token)

def current (ts : List Token) : Token := ts.headD eof

def failAt {α : Type} (t : Token) (fault : ParseFault) : Except ParseError α :=
  .error ⟨fault, t.start⟩

def expect (kind : TokenKind) : Parser Token
  | [] => failAt eof (.expected kind eof.kind eof.value)
  | t :: rest =>
    if t.kind = kind then .ok (.used t t rest) else failAt t (.expected kind t.kind t.value)

def joinOperands (op : Token) (l r : Expr) : Except ParseError Expr :=
  match binaryOp? op.kind with
  | some o => .ok (.binary o l r)
  | none => failAt op (.unknownOperator op.value)

def leftRest (kinds : List TokenKind) (next : Parser Expr) (l : Expr) : Tail Expr
  | [] => .ok (.unused l [])
  | op :: rest =>
    if op.kind ∈ kinds then
      match next rest with
      | .error e => .error e
      | .ok ⟨r, left, h⟩ =>
        match joinOperands op l r with
        | .error e => .error e
        | .ok both =>
          match leftRest kinds next both left with
          | .error e => .error e
          | .ok whole => .ok ((Parsed.followTail ⟨r, left, h⟩ whole).past op).loosen
    else .ok (.unused l (op :: rest))
termination_by ts => ts.length
decreasing_by exact Nat.lt_succ_of_lt h

def rightRow (kinds : List TokenKind) (next : Parser Expr) : Parser Expr := fun ts =>
  match next ts with
  | .error e => .error e
  | .ok ⟨l, [], h⟩ => .ok ⟨l, [], h⟩
  | .ok ⟨l, op :: rest, h⟩ =>
    if op.kind ∈ kinds then
      match rightRow kinds next rest with
      | .error e => .error e
      | .ok r =>
        match joinOperands op l r.value with
        | .error e => .error e
        | .ok both => .ok ((r.map fun _ => both).after h)
    else .ok ⟨l, op :: rest, h⟩
termination_by ts => ts.length
decreasing_by exact Nat.lt_of_succ_lt h

def singlePair (kinds : List TokenKind) (next : Parser Expr) : Parser Expr := fun ts =>
  match next ts with
  | .error e => .error e
  | .ok ⟨l, [], h⟩ => .ok ⟨l, [], h⟩
  | .ok ⟨l, op :: rest, h⟩ =>
    if op.kind ∈ kinds then
      match next rest with
      | .error e => .error e
      | .ok r =>
        match joinOperands op l r.value with
        | .error e => .error e
        | .ok both => .ok ((r.map fun _ => both).after h)
    else .ok ⟨l, op :: rest, h⟩

def level (l : Level) (next : Parser Expr) : Parser Expr :=
  match l.associativity with
  | .left => fun ts =>
    match next ts with
    | .error e => .error e
    | .ok first =>
      match leftRest l.kinds next first.value first.rest with
      | .error e => .error e
      | .ok whole => .ok (first.followTail whole)
  | .right => rightRow l.kinds next
  | .none => singlePair l.kinds next

def expression (operand : Parser Expr) : Parser Expr := levels.foldr level operand

/-- The further items of a chain, each after a semicolon; the last semicolon may end it. -/
def chainRest (expr : Parser Expr) (stop : TokenKind) : Tail (List Expr)
  | [] => .ok (.unused [] [])
  | t :: rest =>
    if t.kind = .semicolon then
      if (current eof rest).kind = stop then .ok (Parsed.used [] t rest).loosen
      else
        match expr rest with
        | .error e => .error e
        | .ok ⟨item, left, h⟩ =>
          match chainRest expr stop left with
          | .error e => .error e
          | .ok more =>
            .ok (((Parsed.followTail ⟨item, left, h⟩ more).map (item :: ·)).past t).loosen
    else .ok (.unused [] (t :: rest))
termination_by ts => ts.length
decreasing_by exact Nat.lt_succ_of_lt h

def chainOf : Expr → List Expr → Expr
  | e, [] => e
  | e, rest => .chain (e :: rest)

def chain (expr : Parser Expr) (stop : TokenKind) : Parser Expr := fun ts =>
  match expr ts with
  | .error e => .error e
  | .ok first =>
    match chainRest eof expr stop first.rest with
    | .error e => .error e
    | .ok more => .ok (first.followTail (more.map (chainOf first.value)))

def closedChain (expr : Parser Expr) (close : TokenKind) : Parser Expr := fun ts =>
  match chain eof expr close ts with
  | .error e => .error e
  | .ok inner =>
    match expect eof close inner.rest with
    | .error e => .error e
    | .ok closing => .ok ((inner.follow closing).map fun _ => inner.value)

def itemList (expr : Parser Expr) (stop : TokenKind) : Parser (List Expr) := fun ts =>
  match expr ts with
  | .error e => .error e
  | .ok ⟨_, [], _⟩ => failAt eof (.expected stop eof.kind eof.value)
  | .ok ⟨item, t :: rest, h⟩ =>
    if t.kind = .comma then
      match itemList expr stop rest with
      | .error e => .error e
      | .ok more => .ok ((more.map (item :: ·)).after h)
    else
      match expect eof stop (t :: rest) with
      | .error e => .error e
      | .ok closing => .ok ((closing.map fun _ => [item]).under h)
termination_by ts => ts.length
decreasing_by exact Nat.lt_of_succ_lt h

def items (expr : Parser Expr) (stop : TokenKind) : Parser (List Expr)
  | t :: rest =>
    if t.kind = stop then .ok (.used [] t rest) else itemList eof expr stop (t :: rest)
  | [] => itemList eof expr stop []

def field (expr : Parser Expr) (seen : List String) : Parser (String × Expr) := fun ts =>
  match expect eof .name ts with
  | .error e => .error e
  | .ok name =>
    if name.value.value ∈ seen then failAt name.value (.duplicateField name.value.value)
    else
      match expect eof .colon name.rest with
      | .error e => .error e
      | .ok colon =>
        match expr colon.rest with
        | .error e => .error e
        | .ok item =>
          .ok (((name.follow colon).follow item).map fun e => (name.value.value, e))

/-- Fields up to a closing brace. The names in `seen` are taken. -/
def fieldList (expr : Parser Expr) (seen : List String) : Parser (List (String × Expr)) := fun ts =>
  match field eof expr seen ts with
  | .error e => .error e
  | .ok ⟨_, [], _⟩ => failAt eof (.expected .rightBrace eof.kind eof.value)
  | .ok ⟨f, t :: rest, h⟩ =>
    if t.kind = .comma then
      match fieldList expr (f.1 :: seen) rest with
      | .error e => .error e
      | .ok more => .ok ((more.map (f :: ·)).after h)
    else
      match expect eof .rightBrace (t :: rest) with
      | .error e => .error e
      | .ok closing => .ok ((closing.map fun _ => [f]).under h)
termination_by ts => ts.length
decreasing_by exact Nat.lt_of_succ_lt h

def fields (expr : Parser Expr) : Parser (List (String × Expr))
  | t :: rest =>
    if t.kind = .rightBrace then .ok (.used [] t rest) else fieldList eof expr [] (t :: rest)
  | [] => fieldList eof expr [] []

def nameOrCall (expr : Parser Expr) (t : Token) : Tail Expr
  | [] => .ok (.unused (.name t.value t.start.offset) [])
  | p :: rest =>
    if p.kind = .leftParen then
      match items eof expr .rightParen rest with
      | .error e => .error e
      | .ok args => .ok ((args.map (.call t.value · t.start.offset)).past p).loosen
    else .ok (.unused (.name t.value t.start.offset) (p :: rest))

def atom (expr : Parser Expr) : Parser Expr
  | [] => failAt eof .noExpression
  | t :: rest =>
    match t.kind with
    | .number =>
      match Number.read? t.value with
      | some x => .ok (.used (.number x) t rest)
      | none => failAt t (.badNumber t.value)
    | .string => .ok (.used (.text t.value) t rest)
    | .trueWord => .ok (.used (.boolean true) t rest)
    | .falseWord => .ok (.used (.boolean false) t rest)
    | .name => nameOrCall eof expr t rest
    | .leftParen =>
      match closedChain eof expr .rightParen rest with
      | .error e => .error e
      | .ok inner => .ok (inner.past t)
    | .leftBrace =>
      match fields eof expr rest with
      | .error e => .error e
      | .ok fs => .ok ((fs.map .record).past t)
    | .leftBracket =>
      match items eof expr .rightBracket rest with
      | .error e => .error e
      | .ok es => .ok ((es.map .table).past t)
    | .eof => failAt t .noExpression
    | _ => failAt t (.unexpected t.value)

def suffixes (e : Expr) : Tail Expr
  | [] => .ok (.unused e [])
  | t :: rest =>
    if t.kind = .percent then
      match suffixes (.percent e) rest with
      | .error f => .error f
      | .ok r => .ok r.loosen
    else if t.kind = .dot then
      match expect eof .name rest with
      | .error f => .error f
      | .ok ⟨name, left, h⟩ =>
        match suffixes (.field e name.value) left with
        | .error f => .error f
        | .ok r => .ok ((Parsed.followTail ⟨name, left, h⟩ r).past t).loosen
    else .ok (.unused e (t :: rest))
termination_by ts => ts.length
decreasing_by
  · exact Nat.lt_succ_self rest.length
  · exact Nat.lt_succ_of_lt h

def suffixed (expr : Parser Expr) : Parser Expr := fun ts =>
  match atom eof expr ts with
  | .error e => .error e
  | .ok a =>
    match suffixes eof a.value a.rest with
    | .error e => .error e
    | .ok r => .ok (a.followTail r)

/-- Signs and negations before an operand; a plus sign leaves no trace. -/
def operand : Nat → Parser Expr
  | 0, ts => failAt (current eof ts) (.tooDeep maxNesting)
  | depth + 1, [] => suffixed eof (expression (operand depth)) []
  | depth + 1, t :: rest =>
    let signed (f : Expr → Expr) : Except ParseError (Parsed Token Expr (t :: rest).length) :=
      match operand depth rest with
      | .error e => .error e
      | .ok r => .ok ((r.map f).past t)
    match t.kind with
    | .minus => signed (.unary .neg)
    | .negation => signed (.unary .not)
    | .plus => signed id
    | _ => suffixed eof (expression (operand depth)) (t :: rest)

def wholeExpression : Parser Expr := expression (operand eof maxNesting)

def finish {α : Type} (value : α) : List Token → Except ParseError α
  | [] => .ok value
  | t :: _ => failAt t (.trailing t.value)

def formula (ts : List Token) : Except ParseError Expr :=
  match chain eof (wholeExpression eof) .eof ts with
  | .error e => .error e
  | .ok r => finish r.value r.rest

end

end FormulaShell.Formula
