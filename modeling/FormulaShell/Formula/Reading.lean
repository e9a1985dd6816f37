import FormulaShell.Diagnostic
import FormulaShell.Formula.Check
import FormulaShell.Formula.DefinitionParser
import FormulaShell.Formula.Lexer

namespace FormulaShell.Formula

open FormulaShell.Text

inductive ReadError where
  | lex (e : LexError)
  | parse (e : ParseError)
  deriving DecidableEq, Repr

def tokens (source : String) : Except ReadError Tokens := (lex source).mapError .lex

def readFormula (source : String) : Except ReadError Expr := do
  let ts ← tokens source
  (formula ts.eof ts.list).mapError .parse

def readDefinitions (source : String) : Except ReadError (List FunctionDef) := do
  let ts ← tokens source
  (definitions ts.eof ts.list).mapError .parse

def LexFault.code : LexFault → String
  | unclosedComment => "LEX001"
  | unclosedString => "LEX003"
  | unclosedName => "LEX004"
  | emptyName => "LEX005"
  | unexpected _ => "LEX090"

def LexFault.message : LexFault → String
  | unclosedComment => "Unterminated block comment."
  | unclosedString => "Unterminated string literal."
  | unclosedName => "Unterminated quoted identifier."
  | emptyName => "Empty identifier."
  | unexpected c => "Unexpected character " ++ showChar c ++ "."

def ParseFault.code : ParseFault → String
  | expected .. => "PAR001"
  | unknownOperator _ => "PAR010"
  | badNumber _ => "PAR020"
  | noExpression => "PAR030"
  | unexpected _ => "PAR031"
  | duplicateField _ => "PAR040"
  | tooDeep _ => "PAR050"
  | trailing _ => "PAR090"

def ParseFault.message : ParseFault → String
  | expected wanted found text =>
    "Expected " ++ wanted.label ++ " but found " ++ found.label ++ " (" ++ text ++ ")."
  | unknownOperator text => "Unknown operator: " ++ text
  | badNumber text => "Invalid number literal: " ++ text
  | noExpression => "Expected an expression."
  | unexpected text => "Unexpected token: " ++ text
  | duplicateField name => "Duplicate field name: " ++ name
  | tooDeep limit => "Expression is nested too deeply (limit " ++ toString limit ++ ")."
  | trailing text => "Unexpected characters after the expression: " ++ text

def diagnosticAt (code message : String) (p : Position) (snippet : Option String) : Diagnostic :=
  ⟨code, message, some p.offset, some p.line, some p.column, snippet⟩

def ReadError.diagnostic : ReadError → Diagnostic
  | lex e => diagnosticAt e.fault.code e.fault.message e.start (some e.line)
  | parse e => diagnosticAt e.fault.code e.fault.message e.start none

def CheckError.diagnostic : CheckError → Diagnostic
  | unknownName name offset =>
    ⟨"CHK001", "Name isn't valid. '" ++ name ++ "' isn't recognized.", some offset, none, none, none⟩
  | unknownFunction name offset =>
    ⟨"CHK002", "'" ++ name ++ "' is an unknown or unsupported function.", some offset, none, none,
      none⟩
  | wrongArity name arity received offset =>
    ⟨"CHK003", "Invalid number of arguments to " ++ name ++ ": expected " ++ arity.describe
      ++ ", received " ++ toString received ++ ".", some offset, none, none, none⟩

end FormulaShell.Formula
