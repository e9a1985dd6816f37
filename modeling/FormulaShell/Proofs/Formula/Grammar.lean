import FormulaShell.Formula.Parser

namespace FormulaShell.Formula

abbrev Terminal (kind : TokenKind) := { t : Token // t.kind = kind }

structure Operator (l : Level) where
  token : Token
  op : BinaryOp
  mem : token.kind ∈ l.kinds
  means : binaryOp? token.kind = some op

-- The meaning that is asked for leaves no operator out.
example : ∀ l ∈ levels, ∀ k ∈ l.kinds, (binaryOp? k).isSome := by decide

structure Sign where
  token : Token
  mem : token.kind ∈ [TokenKind.minus, .plus, .negation]

def Sign.apply (s : Sign) (e : Expr) : Expr :=
  match s.token.kind with
  | .minus => .unary .neg e
  | .negation => .unary .not e
  | _ => e

/-- What the grammar has rules for. -/
inductive Symbol where
  /-- Operands, joined by operators of some levels, of which the first binds weakest. -/
  | row (ls : List Level)
  | operand
  | suffixed
  | atom
  /-- One expression or more, between commas. -/
  | list
  /-- A list or nothing. -/
  | items
  /-- One field or more, between commas, with different names that are not taken. -/
  | fields (taken : List String)
  /-- Fields or nothing. -/
  | entries
  /-- One expression or more, between semicolons, of which one may come at the end. -/
  | chain

abbrev Symbol.expression : Symbol := .row levels

inductive Derivation : Symbol → Type where
  | operand (e : Derivation .operand) : Derivation (.row [])
  | tighter {l : Level} {ls : List Level} (e : Derivation (.row ls)) : Derivation (.row (l :: ls))
  | left {l : Level} {ls : List Level} (h : l.associativity = .left)
      (a : Derivation (.row (l :: ls))) (op : Operator l) (b : Derivation (.row ls)) :
      Derivation (.row (l :: ls))
  | right {l : Level} {ls : List Level} (h : l.associativity = .right)
      (a : Derivation (.row ls)) (op : Operator l) (b : Derivation (.row (l :: ls))) :
      Derivation (.row (l :: ls))
  | single {l : Level} {ls : List Level} (h : l.associativity = .none)
      (a : Derivation (.row ls)) (op : Operator l) (b : Derivation (.row ls)) :
      Derivation (.row (l :: ls))
  | unsigned (e : Derivation .suffixed) : Derivation .operand
  | signed (sign : Sign) (e : Derivation .operand) : Derivation .operand
  | bare (e : Derivation .atom) : Derivation .suffixed
  | percent (e : Derivation .suffixed) (mark : Terminal .percent) : Derivation .suffixed
  | field (e : Derivation .suffixed) (dot : Terminal .dot) (name : Terminal .name) :
      Derivation .suffixed
  | number (t : Terminal .number) (x : Float) (h : Number.read? t.1.value = some x) :
      Derivation .atom
  | text (t : Terminal .string) : Derivation .atom
  | truth (t : Terminal .trueWord) : Derivation .atom
  | falsehood (t : Terminal .falseWord) : Derivation .atom
  | name (t : Terminal .name) : Derivation .atom
  | call (name : Terminal .name) (open_ : Terminal .leftParen) (args : Derivation .items)
      (close : Terminal .rightParen) : Derivation .atom
  | group (open_ : Terminal .leftParen) (inner : Derivation .chain)
      (close : Terminal .rightParen) : Derivation .atom
  | record (open_ : Terminal .leftBrace) (entries : Derivation .entries)
      (close : Terminal .rightBrace) : Derivation .atom
  | table (open_ : Terminal .leftBracket) (items : Derivation .items)
      (close : Terminal .rightBracket) : Derivation .atom
  | lastItem (e : Derivation .expression) : Derivation .list
  | consItem (e : Derivation .expression) (comma : Terminal .comma) (more : Derivation .list) :
      Derivation .list
  | noItems : Derivation .items
  | someItems (list : Derivation .list) : Derivation .items
  | lastField {taken : List String} (name : Terminal .name) (fresh : name.1.value ∉ taken)
      (colon : Terminal .colon) (e : Derivation .expression) : Derivation (.fields taken)
  | consField {taken : List String} (name : Terminal .name) (fresh : name.1.value ∉ taken)
      (colon : Terminal .colon) (e : Derivation .expression) (comma : Terminal .comma)
      (more : Derivation (.fields (name.1.value :: taken))) : Derivation (.fields taken)
  | noEntries : Derivation .entries
  | someEntries (fields : Derivation (.fields [])) : Derivation .entries
  | lastLink (e : Derivation .expression) : Derivation .chain
  | endLink (e : Derivation .expression) (semicolon : Terminal .semicolon) : Derivation .chain
  | consLink (e : Derivation .expression) (semicolon : Terminal .semicolon)
      (more : Derivation .chain) : Derivation .chain

abbrev Symbol.Value : Symbol → Type
  | list | items | chain => List Expr
  | fields _ | entries => List (String × Expr)
  | _ => Expr

/-- A single expression stands for itself. -/
def inSequence : List Expr → Expr
  | [e] => e
  | es => .chain es

namespace Derivation

@[simp]
def tokens : {s : Symbol} → Derivation s → List Token
  | _, operand e | _, tighter e | _, unsigned e | _, bare e => e.tokens
  | _, left _ a op b | _, right _ a op b | _, single _ a op b => a.tokens ++ op.token :: b.tokens
  | _, signed sign e => sign.token :: e.tokens
  | _, percent e mark => e.tokens ++ [mark.1]
  | _, field e dot n => e.tokens ++ [dot.1, n.1]
  | _, number t .. | _, text t | _, truth t | _, falsehood t | _, name t => [t.1]
  | _, call f open_ args close => f.1 :: open_.1 :: (args.tokens ++ [close.1])
  | _, group open_ inner close => open_.1 :: (inner.tokens ++ [close.1])
  | _, record open_ entries close => open_.1 :: (entries.tokens ++ [close.1])
  | _, table open_ items close => open_.1 :: (items.tokens ++ [close.1])
  | _, lastItem e | _, lastLink e => e.tokens
  | _, consItem e comma more => e.tokens ++ comma.1 :: more.tokens
  | _, noItems | _, noEntries => []
  | _, someItems list => list.tokens
  | _, lastField n _ colon e => n.1 :: colon.1 :: e.tokens
  | _, consField n _ colon e comma more => n.1 :: colon.1 :: (e.tokens ++ comma.1 :: more.tokens)
  | _, someEntries fields => fields.tokens
  | _, endLink e semicolon => e.tokens ++ [semicolon.1]
  | _, consLink e semicolon more => e.tokens ++ semicolon.1 :: more.tokens

@[simp]
def value : {s : Symbol} → Derivation s → s.Value
  | _, operand e | _, tighter e | _, unsigned e | _, bare e => e.value
  | _, left _ a op b | _, right _ a op b | _, single _ a op b => .binary op.op a.value b.value
  | _, signed sign e => sign.apply e.value
  | _, percent e _ => .percent e.value
  | _, field e _ n => .field e.value n.1.value
  | _, number _ x _ => .number x
  | _, text t => .text t.1.value
  | _, truth _ => .boolean true
  | _, falsehood _ => .boolean false
  | _, name t => .name t.1.value t.1.start.offset
  | _, call f _ args _ => .call f.1.value args.value f.1.start.offset
  | _, group _ inner _ => inSequence inner.value
  | _, record _ entries _ => .record entries.value
  | _, table _ items _ => .table items.value
  | _, lastItem e | _, lastLink e | _, endLink e _ => [e.value]
  | _, consItem e _ more | _, consLink e _ more => e.value :: more.value
  | _, noItems | _, noEntries => []
  | _, someItems list => list.value
  | _, lastField n _ _ e => [(n.1.value, e.value)]
  | _, consField n _ _ e _ more => (n.1.value, e.value) :: more.value
  | _, someEntries fields => fields.value

/-- The most signs and brackets that enclose an operand. -/
def nesting : {s : Symbol} → Derivation s → Nat
  | _, operand e | _, tighter e | _, unsigned e | _, bare e => e.nesting
  | _, left _ a _ b | _, right _ a _ b | _, single _ a _ b => max a.nesting b.nesting
  | _, signed _ e => e.nesting + 1
  | _, percent e _ | _, field e .. => e.nesting
  | _, number .. | _, text _ | _, truth _ | _, falsehood _ | _, name _ => 0
  | _, call _ _ args _ => args.nesting
  | _, group _ inner _ => inner.nesting + 1
  | _, record _ entries _ => entries.nesting
  | _, table _ items _ => items.nesting
  | _, lastItem e | _, lastLink e | _, endLink e _ | _, lastField _ _ _ e => e.nesting
  | _, consItem e _ more | _, consLink e _ more | _, consField _ _ _ e _ more =>
    max e.nesting more.nesting
  | _, noItems | _, noEntries => 0
  | _, someItems list => list.nesting + 1
  | _, someEntries fields => fields.nesting + 1

end Derivation

end FormulaShell.Formula
