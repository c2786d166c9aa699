import BlockLang.Code.Error
import BlockLang.Code.Literal
import BlockLang.Code.Name

/-! # Names that routes and actions may use

Routes must name schemas and actions of the tree. Actions become functions of the generated
module, so they must not take a name that the module declares or relies on.
-/

namespace BlockLang

namespace Server

def runtimeImports : List String :=
  ["tableAccess", "authGate", "normalizeError", "ValidationFailure"]

/-- The names that are declared where handlers call actions. -/
def handlerLocals : List String := ["db", "tables", "req", "ctx", "data"]

/-- The names that no action may have: those that the module declares, those
that it imports, and those of its handlers. -/
def takenNames (t : Tree) : List String :=
  ["prepareTables", "createHandlers", "migrations"] ++ runtimeImports ++ handlerLocals
    ++ t.schemas.flatMap fun s => Code.schemaNames s.name

end Server

/-- The first parameter that is reserved or repeats one of those before it. -/
def paramFault? (before : List String) : List String → Option NameFault
  | [] => none
  | p :: rest =>
    if Code.isReserved p then some (.reservedParameter p)
    else if before.contains p then some (.repeatedParameter p)
    else paramFault? (p :: before) rest

def Action.fault? (taken : List String) (a : Action) : Option NameFault :=
  if Code.isReserved a.name then some (.reserved a.name)
  else if taken.contains a.name then some (.clash a.name)
  else paramFault? [] a.params

def Action.checkNames (taken : List String) (a : Action) : Except EmitError Unit :=
  match a.fault? taken with
  | some fault => .error (.invalidActionName a.name a.line fault)
  | none => .ok ()

namespace Route

def checkStep (t : Tree) (r : Route) : Step → Except EmitError Unit
  | .auth => .ok ()
  | .validate schema =>
    if (t.schema? schema).isSome then .ok () else .error (.unknownSchema r.verb r.path schema)
  | .action name =>
    if (t.action? name).isSome then .ok () else .error (.unknownAction r.verb r.path name)

/-- Whether the tree has all that the route names, and the route has an
action. -/
def checkSteps (t : Tree) (r : Route) : Except EmitError Unit := do
  r.pipeline.forM (r.checkStep t)
  if r.actions.isEmpty then .error (.emptyPipeline r.verb r.path) else .ok ()

end Route

/-- Whether the routes and the actions of a tree only use names that they may
use. -/
def Tree.checkNames (t : Tree) : Except EmitError Unit := do
  t.routes.forM (Route.checkSteps t)
  t.actions.forM (Action.checkNames (Server.takenNames t))

end BlockLang
