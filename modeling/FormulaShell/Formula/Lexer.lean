import FormulaShell.Formula.Token
import FormulaShell.Text.Blank
import FormulaShell.Text.Printable
import FormulaShell.Text.Word

namespace FormulaShell.Formula

open FormulaShell.Text

inductive LexFault where
  | unclosedComment
  | unclosedString
  | unclosedName
  | emptyName
  | unexpected (c : Char)
  deriving DecidableEq, Repr

structure LexError where
  fault : LexFault
  start : Position
  line : String
  deriving DecidableEq, Repr

/-- What starts at a character: how many more characters belong to it, and the token if it is
one. -/
structure Lexeme where
  more : Nat
  token : Option (TokenKind × String)
  deriving DecidableEq, Repr

def pairSymbol? (c d : Char) : Option TokenKind :=
  if c = '<' ∧ d = '>' then some .notEqual
  else if c = '<' ∧ d = '=' then some .lessEqual
  else if c = '>' ∧ d = '=' then some .greaterEqual
  else if c = '&' ∧ d = '&' then some .conj
  else if c = '|' ∧ d = '|' then some .disj
  else none

def symbol? (c : Char) : Option TokenKind :=
  match c with
  | '(' => some .leftParen
  | ')' => some .rightParen
  | '{' => some .leftBrace
  | '}' => some .rightBrace
  | '[' => some .leftBracket
  | ']' => some .rightBracket
  | ',' => some .comma
  | ';' => some .semicolon
  | ':' => some .colon
  | '.' => some .dot
  | '+' => some .plus
  | '-' => some .minus
  | '*' => some .star
  | '/' => some .slash
  | '^' => some .caret
  | '%' => some .percent
  | '&' => some .ampersand
  | '=' => some .equal
  | '<' => some .less
  | '>' => some .greater
  | '!' => some .negation
  | _ => none

def wordKind (s : String) : TokenKind :=
  if s = "true" then .trueWord
  else if s = "false" then .falseWord
  else if s = "And" then .conj
  else if s = "Or" then .disj
  else if s = "Not" then .negation
  else .name

/-- The text up to a quote that is not doubled, and the number of characters up to and with that
quote. -/
def quotedBody? (quote : Char) : List Char → Option (List Char × Nat)
  | [] => none
  | c :: rest =>
    if c = quote then
      match rest with
      | [] => some ([], 1)
      | d :: rest' =>
        if d = quote then (quotedBody? quote rest').map fun r => (quote :: r.1, r.2 + 2)
        else some ([], 1)
    else (quotedBody? quote rest).map fun r => (c :: r.1, r.2 + 1)

def digitCount (cs : List Char) : Nat := (cs.takeWhile isAsciiDigit).length

/-- A point belongs to a number only before a digit. -/
def fractionLength (cs : List Char) : Nat :=
  match cs with
  | '.' :: rest => if digitCount rest = 0 then 0 else digitCount rest + 1
  | _ => 0

/-- An exponent mark belongs to a number only before digits, which may have a sign. -/
def exponentLength (cs : List Char) : Nat :=
  match cs with
  | [] => 0
  | c :: rest =>
    if c = 'e' ∨ c = 'E' then
      let sign :=
        match rest with
        | '+' :: _ => 1
        | '-' :: _ => 1
        | _ => 0
      let digits := digitCount (rest.drop sign)
      if digits = 0 then 0 else 1 + sign + digits
    else 0

def numberLength (cs : List Char) : Nat :=
  let whole := digitCount cs
  let fraction := fractionLength (cs.drop whole)
  whole + fraction + exponentLength (cs.drop (whole + fraction))

def commentLength? : List Char → Option Nat
  | [] => none
  | c :: rest =>
    if c = '*' ∧ rest.head? = some '/' then some 2
    else (commentLength? rest).map (· + 1)

def lexeme (c : Char) (rest : List Char) : Except LexFault Lexeme :=
  if isBlank c then .ok ⟨0, none⟩
  else if c = '/' ∧ rest.head? = some '/' then
    .ok ⟨(rest.takeWhile (· != '\n')).length, none⟩
  else if c = '/' ∧ rest.head? = some '*' then
    match commentLength? (rest.drop 1) with
    | some n => .ok ⟨n + 1, none⟩
    | none => .error .unclosedComment
  else
    match rest.head?.bind (pairSymbol? c) with
    | some k => .ok ⟨1, some (k, String.ofList (c :: rest.take 1))⟩
    | none =>
      match symbol? c with
      | some k => .ok ⟨0, some (k, String.singleton c)⟩
      | none =>
        if c = '"' then
          match quotedBody? '"' rest with
          | some (body, n) => .ok ⟨n, some (.string, String.ofList body)⟩
          | none => .error .unclosedString
        else if c = '\'' then
          match quotedBody? '\'' rest with
          | some ([], _) => .error .emptyName
          | some (body, n) => .ok ⟨n, some (.name, String.ofList body)⟩
          | none => .error .unclosedName
        else if isAsciiDigit c then
          let n := numberLength rest
          .ok ⟨n, some (.number, String.ofList (c :: rest.take n))⟩
        else if isWordStart c then
          let word := String.ofList (c :: rest.takeWhile isWordChar)
          .ok ⟨(rest.takeWhile isWordChar).length, some (wordKind word, word)⟩
        else .error (.unexpected c)

def lexFrom (p : Position) : List Char → Except (LexFault × Position) Tokens
  | [] => .ok ⟨[], p⟩
  | c :: rest =>
    match lexeme c rest with
    | .error fault => .error (fault, p)
    | .ok l =>
      match lexFrom (p.advanceAll (c :: rest.take l.more)) (rest.drop l.more) with
      | .error e => .error e
      | .ok ts =>
        match l.token with
        | some (kind, value) => .ok { ts with list := ⟨kind, value, p⟩ :: ts.list }
        | none => .ok ts
termination_by cs => cs.length
decreasing_by simp only [List.length_drop, List.length_cons]; omega

def lex (source : String) : Except LexError Tokens :=
  match lexFrom .start source.toList with
  | .ok ts => .ok ts
  | .error (fault, p) => .error ⟨fault, p, String.ofList (lineText p.line source.toList)⟩

end FormulaShell.Formula
