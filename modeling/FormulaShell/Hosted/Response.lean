import FormulaShell.Hosted.Context
import FormulaShell.Hosted.Request
import FormulaShell.Value.Render
import FormulaShell.Workbook.Basic

namespace FormulaShell.Hosted

open FormulaShell.Formula FormulaShell.Json

inductive Response where
  | result (text : String)
  | error (text : String)
  deriving DecidableEq, Repr

inductive Failure where
  | badRequest
  | badContext (e : ContextError)
  | workbook (e : WorkbookError)
  deriving DecidableEq, Repr

def ContextError.message : ContextError → String
  | malformed => "invalid context:"
  | notObject => "context must be a JSON object"

def Failure.message : Failure → String
  | badRequest => "invalid request:"
  | badContext e => e.message
  | workbook e => e.message

def evaluate (r : Request) (poll : Poll Unit) : Except Failure Value := do
  let bindings ← (bindingsOf r.context).mapError .badContext
  (Workbook.empty.evaluate r.expression bindings poll ()).1.mapError .workbook

def respond (r : Request) (poll : Poll Unit) : Response :=
  match evaluate r poll with
  | .ok (.error m) => .error m
  | .ok v => .result v.canonical
  | .error e => .error e.message

def Response.document : Response → Document
  | result s => .object [("result", .text s)]
  | error s => .object [("error", .text s)]

def answer (request : String) (poll : Poll Unit) : String :=
  let response :=
    match Request.read? request with
    | some r => respond r poll
    | none => .error Failure.badRequest.message
  response.document.compact

end FormulaShell.Hosted
