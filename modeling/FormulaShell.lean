import FormulaShell.CommandLine.Arguments
import FormulaShell.CommandLine.Program
import FormulaShell.Decimal.Arithmetic
import FormulaShell.Decimal.Basic
import FormulaShell.Decimal.Binary
import FormulaShell.Decimal.Division
import FormulaShell.Decimal.Reading
import FormulaShell.Diagnostic
import FormulaShell.Fields
import FormulaShell.Formula.Aggregation
import FormulaShell.Formula.Arity
import FormulaShell.Formula.Builtin
import FormulaShell.Formula.Check
import FormulaShell.Formula.Conversion
import FormulaShell.Formula.DefinitionParser
import FormulaShell.Formula.Environment
import FormulaShell.Formula.Eval
import FormulaShell.Formula.Expr
import FormulaShell.Formula.Functions
import FormulaShell.Formula.Lexer
import FormulaShell.Formula.Operators
import FormulaShell.Formula.Parser
import FormulaShell.Formula.Reading
import FormulaShell.Formula.Token
import FormulaShell.Hosted.Context
import FormulaShell.Hosted.Request
import FormulaShell.Hosted.Response
import FormulaShell.Json.Document
import FormulaShell.Json.Node
import FormulaShell.Json.Text
import FormulaShell.Main
import FormulaShell.Number.Parts
import FormulaShell.Number.Power
import FormulaShell.Number.Read
import FormulaShell.Number.Rounding
import FormulaShell.Number.Shortest
import FormulaShell.Number.Text
import FormulaShell.Parsed
import FormulaShell.Proofs.Decimal.Binary
import FormulaShell.Proofs.Fields
import FormulaShell.Proofs.Formula.Aggregates
import FormulaShell.Proofs.Formula.Blame
import FormulaShell.Proofs.Formula.CallDepth
import FormulaShell.Proofs.Formula.Comparison
import FormulaShell.Proofs.Formula.Contents
import FormulaShell.Proofs.Formula.Crash
import FormulaShell.Proofs.Formula.CrashFreedom
import FormulaShell.Proofs.Formula.Cursor
import FormulaShell.Proofs.Formula.CursorReading
import FormulaShell.Proofs.Formula.CursorSteps
import FormulaShell.Proofs.Formula.DefinitionGrammar
import FormulaShell.Proofs.Formula.DefinitionParsing
import FormulaShell.Proofs.Formula.Denotes
import FormulaShell.Proofs.Formula.Diagnostics
import FormulaShell.Proofs.Formula.Expr
import FormulaShell.Proofs.Formula.Extremes
import FormulaShell.Proofs.Formula.Filtering
import FormulaShell.Proofs.Formula.Finiteness
import FormulaShell.Proofs.Formula.Gathering
import FormulaShell.Proofs.Formula.Grammar
import FormulaShell.Proofs.Formula.Growth
import FormulaShell.Proofs.Formula.Guards
import FormulaShell.Proofs.Formula.Height
import FormulaShell.Proofs.Formula.Homogeneity
import FormulaShell.Proofs.Formula.InnerFaults
import FormulaShell.Proofs.Formula.Interruption
import FormulaShell.Proofs.Formula.Lasting
import FormulaShell.Proofs.Formula.Lexes
import FormulaShell.Proofs.Formula.LineEnds
import FormulaShell.Proofs.Formula.Locality
import FormulaShell.Proofs.Formula.Lookahead
import FormulaShell.Proofs.Formula.Mentions
import FormulaShell.Proofs.Formula.Numerals
import FormulaShell.Proofs.Formula.ParserCompleteness
import FormulaShell.Proofs.Formula.ParserSoundness
import FormulaShell.Proofs.Formula.Parses
import FormulaShell.Proofs.Formula.Pieces
import FormulaShell.Proofs.Formula.Plan
import FormulaShell.Proofs.Formula.Progress
import FormulaShell.Proofs.Formula.Quiet
import FormulaShell.Proofs.Formula.Reading
import FormulaShell.Proofs.Formula.Relocation
import FormulaShell.Proofs.Formula.Requests
import FormulaShell.Proofs.Formula.Scalars
import FormulaShell.Proofs.Formula.Site
import FormulaShell.Proofs.Formula.Spacing
import FormulaShell.Proofs.Formula.Spelling
import FormulaShell.Proofs.Formula.Stability
import FormulaShell.Proofs.Formula.Strict
import FormulaShell.Proofs.Formula.Unambiguity
import FormulaShell.Proofs.Formula.Visits
import FormulaShell.Proofs.Formula.Written
import FormulaShell.Proofs.Formula.Yields
import FormulaShell.Proofs.Hosted.Schemas
import FormulaShell.Proofs.Number.Magnitude
import FormulaShell.Proofs.Number.Order
import FormulaShell.Proofs.Number.Packing
import FormulaShell.Proofs.Number.Reading
import FormulaShell.Proofs.Number.Rounding
import FormulaShell.Proofs.Number.Shortest
import FormulaShell.Proofs.Number.Text
import FormulaShell.Proofs.Script.Assignments
import FormulaShell.Proofs.Script.Classification
import FormulaShell.Proofs.Script.Code
import FormulaShell.Proofs.Script.Comments
import FormulaShell.Proofs.Script.Definitions
import FormulaShell.Proofs.Script.Division
import FormulaShell.Proofs.Script.LexerAgreement
import FormulaShell.Proofs.Script.LineCode
import FormulaShell.Proofs.Script.Scan
import FormulaShell.Proofs.Script.Shapes
import FormulaShell.Proofs.Script.Splitting
import FormulaShell.Proofs.Script.Statements
import FormulaShell.Proofs.Script.Stretches
import FormulaShell.Proofs.Script.Tails
import FormulaShell.Proofs.Session.Calls
import FormulaShell.Proofs.Session.FreshStart
import FormulaShell.Proofs.Session.Reached
import FormulaShell.Proofs.Shell.Console
import FormulaShell.Proofs.Shell.Course
import FormulaShell.Proofs.Shell.Order
import FormulaShell.Proofs.Text.Spot
import FormulaShell.Proofs.Text.Trim
import FormulaShell.Proofs.Text.Word
import FormulaShell.Proofs.Value.Alignment
import FormulaShell.Proofs.Value.Equality
import FormulaShell.Proofs.Value.Insertion
import FormulaShell.Proofs.Value.Legibility
import FormulaShell.Proofs.Value.Rearrangement
import FormulaShell.Proofs.Value.Union
import FormulaShell.Proofs.Workbook.Batch
import FormulaShell.Proofs.Workbook.Consistency
import FormulaShell.Proofs.Workbook.Currency
import FormulaShell.Proofs.Workbook.Dependency
import FormulaShell.Proofs.Workbook.Failure
import FormulaShell.Proofs.Workbook.Hygiene
import FormulaShell.Proofs.Workbook.InPlace
import FormulaShell.Proofs.Workbook.LateDefinition
import FormulaShell.Proofs.Workbook.Notification
import FormulaShell.Proofs.Workbook.ReadBack
import FormulaShell.Proofs.Workbook.Recalculation
import FormulaShell.Proofs.Workbook.Records
import FormulaShell.Proofs.Workbook.Request
import FormulaShell.Proofs.Workbook.RoundTrip
import FormulaShell.Proofs.Workbook.Soundness
import FormulaShell.Proofs.Workbook.Tables
import FormulaShell.Proofs.Workbook.Wellformed
import FormulaShell.Script.Accumulator
import FormulaShell.Script.Reading
import FormulaShell.Script.Scan
import FormulaShell.Script.Statement
import FormulaShell.Session.Basic
import FormulaShell.Session.Directive
import FormulaShell.Session.Help
import FormulaShell.Session.Message
import FormulaShell.Shell.Run
import FormulaShell.Shell.Transcript
import FormulaShell.Text.Blank
import FormulaShell.Text.Case
import FormulaShell.Text.CodeSet
import FormulaShell.Text.Letter
import FormulaShell.Text.Position
import FormulaShell.Text.Printable
import FormulaShell.Text.Word
import FormulaShell.Value.Basic
import FormulaShell.Value.Equality
import FormulaShell.Value.Layout
import FormulaShell.Value.Render
import FormulaShell.Workbook.Basic
import FormulaShell.Workbook.Dependency
import FormulaShell.Workbook.Error
import FormulaShell.Workbook.Execution
import FormulaShell.Workbook.FunctionTable
import FormulaShell.Workbook.Update
