import FormulaShell.Text.Position

namespace FormulaShell.Formula

open FormulaShell.Text

inductive TokenKind where
  | eof
  | leftParen | rightParen | leftBrace | rightBrace | leftBracket | rightBracket
  | comma | semicolon | colon | dot
  | plus | minus | star | slash | caret | percent | ampersand
  | equal | notEqual | less | lessEqual | greater | greaterEqual
  | conj | disj | negation
  | number | string | name | trueWord | falseWord
  deriving DecidableEq, Repr, Inhabited

def TokenKind.label : TokenKind → String
  | eof => "EOF"
  | leftParen => "LPAREN"
  | rightParen => "RPAREN"
  | leftBrace => "LBRACE"
  | rightBrace => "RBRACE"
  | leftBracket => "LBRACK"
  | rightBracket => "RBRACK"
  | comma => "COMMA"
  | semicolon => "SEMI"
  | colon => "COLON"
  | dot => "DOT"
  | plus => "PLUS"
  | minus => "MINUS"
  | star => "STAR"
  | slash => "SLASH"
  | caret => "CARET"
  | percent => "PERCENT"
  | ampersand => "AMP"
  | equal => "EQUAL"
  | notEqual => "NE"
  | less => "LT"
  | lessEqual => "LE"
  | greater => "GT"
  | greaterEqual => "GE"
  | conj => "AND"
  | disj => "OR"
  | negation => "NOT"
  | number => "NUMBER"
  | string => "STRING"
  | name => "IDENT"
  | trueWord => "TRUE"
  | falseWord => "FALSE"

/-- The value is the spelling, or for quoted forms the text between the quotes. -/
structure Token where
  kind : TokenKind
  value : String
  start : Position
  deriving DecidableEq, Repr, Inhabited

/-- The tokens of a text and the position of its end. -/
structure Tokens where
  list : List Token
  stop : Position
  deriving DecidableEq, Repr, Inhabited

def Tokens.eof (ts : Tokens) : Token := ⟨.eof, "", ts.stop⟩

def Tokens.toList (ts : Tokens) : List Token := ts.list ++ [ts.eof]

end FormulaShell.Formula
