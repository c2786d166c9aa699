import BlockLang.Code.Literal
import BlockLang.Code.Name
import BlockLang.Code.Piece
import BlockLang.Tree.Basic

/-! # Actions, tables and handlers in generated code

An action keeps its body as written. A handler runs the steps of its route in order, each action
on what the step before it gave; a health check is added unless the routes have one.
-/

namespace BlockLang.Server

open Code

def actionCode (a : Action) : List Piece :=
  [.line s!"// line {a.line}",
    .line ("async function " ++ a.name ++ "(" ++ String.intercalate ", " a.params ++ r") {"),
    .verbatim a.body, .line r"}"]

/-- The function that prepares access to all tables, under the names of their
schemas. -/
def prepareTables (schemas : List Schema) : List Piece :=
  block r"export function prepareTables(db) {"
    (if schemas.isEmpty then [.line "return Object.freeze({});"]
    else
      block r"return Object.freeze({"
        (schemas.map fun s => .line (s.name ++ ": tableAccess(db, " ++ string s.name ++ ", "
          ++ statementsName s.name ++ "),")) r"});")
    r"}"

def healthPath : String := "/health"

def isHealth (r : Route) : Bool := r.key = (.get, healthPath)

/-- The lines of a step in a handler. An action that gives nothing is taken to
have succeeded. -/
def stepLines : Step → List Piece
  | .auth => [.line "ctx.user = await authGate(req);"]
  | .validate schema => [.line ("data = " ++ validatorName schema ++ "(data);")]
  | .action name =>
    [.line ("data = await " ++ name ++ "(data, ctx);"),
      .line "if (data === undefined) data = { success: true };"]

def handler (verb : Verb) (path : String) (code : List Piece) : List Piece :=
  block r"{"
    ([.line ("method: " ++ string verb.spelling ++ ","), .line ("path: " ++ string path ++ ",")]
      ++ block r"async handle(req) {" code r"},")
    r"},"

def healthHandler : List Piece :=
  handler .get healthPath [.line r#"return { status: 200, body: { status: "ok" } };"#]

/-- The handler of a route. What the request gives in its path counts over its
body, and this over its query. -/
def routeHandler (r : Route) : List Piece :=
  handler r.verb r.path
    ([.line (r"const ctx = { user: null, params: req.params ?? {}, "
        ++ r"query: req.query ?? {}, tables };"),
      .opening r"try {",
      .line "let data = { ...ctx.query, ...(req.body ?? {}), ...ctx.params };"]
      ++ r.pipeline.flatMap stepLines
      ++ [.line "return { status: 200, body: data };",
        .reopening r"} catch (err) {",
        .line "const failure = normalizeError(err);",
        .line "return { status: failure.status, body: { error: failure.message } };",
        .closing r"}"])

/-- The function that makes the handlers of all routes, with a health check in
front unless one of the routes is one. -/
def createHandlers (routes : List Route) : List Piece :=
  block r"export function createHandlers(db) {"
    (.line "const tables = prepareTables(db);"
      :: block "return ["
        ((if routes.any isHealth then [] else healthHandler) ++ routes.flatMap routeHandler) "];")
    r"}"

end BlockLang.Server
