import BlockLang.Server.Handlers
import BlockLang.Server.Migrations
import BlockLang.Server.Queries
import BlockLang.Server.Scope
import BlockLang.Server.Types
import BlockLang.Server.Validator

/-! # Generated files

A tree becomes a server module and type declarations. Nothing is generated from a tree with a
fault.
-/

namespace BlockLang

/-- What the generated code depends on besides the tree. -/
structure EmitOptions where
  dialect : Dialect := .sqlite
  /-- The module that the generated code imports its helpers from. -/
  runtimeModule : String := "blocksmith/runtime"
  deriving DecidableEq, Repr

structure Artifacts where
  server : String
  types : String
  deriving DecidableEq, Repr

namespace Server

open Code

def importLine (options : EmitOptions) : Piece :=
  .line (r"import { " ++ String.intercalate ", " runtimeImports ++ r" } from "
    ++ string options.runtimeModule ++ ";")

/-- The section of a schema, given its checks: its validator first, and then
what belongs to its table. -/
def schemaSection (options : EmitOptions) (s : Schema) (checks : List Check) : List Piece :=
  [.blank, .line ("// ── " ++ s.name ++ " ──"), .blank] ++ validator s.name checks ++ [.blank]
    ++ queries options.dialect s

def actionSection (actions : List Action) : List Piece :=
  if actions.isEmpty then []
  else [.blank, .line "// ── Actions ──"] ++ actions.flatMap fun a => .blank :: actionCode a

def pieces (options : EmitOptions) (t : Tree) : Except EmitError (List Piece) := do
  let schemas ← t.schemas.mapM fun s => return schemaSection options s (← s.checks)
  let migrations ← t.migrations.mapM fun m =>
    return (m.version, ← m.statements options.dialect t)
  return [.line header, importLine options] ++ schemas.flatten ++ actionSection t.actions
    ++ [.blank] ++ migrationList migrations ++ [.blank] ++ prepareTables t.schemas
    ++ [.blank] ++ createHandlers t.routes

end Server

namespace Tree

def server (options : EmitOptions) (t : Tree) : Except EmitError String := do
  return Code.render (← Server.pieces options t)

/-- The generated files of a tree. -/
def emit (options : EmitOptions) (t : Tree) : Except EmitError Artifacts := do
  t.checkNames
  return { server := ← t.server options, types := t.types }

end Tree

end BlockLang
