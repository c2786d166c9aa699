import BlockLang.Pattern
import BlockLang.Tree.Basic

/-! # Why no code is generated -/

namespace BlockLang

inductive NameFault where
  | reserved (name : String)
  | clash (name : String)
  | reservedParameter (name : String)
  | repeatedParameter (name : String)
  deriving DecidableEq, Repr

def NameFault.message : NameFault → String
  | .reserved name => s!"`{name}` is a reserved word"
  | .clash name => s!"`{name}` clashes with a generated name"
  | .reservedParameter name => s!"parameter `{name}` is a reserved word"
  | .repeatedParameter name => s!"parameter `{name}` is declared twice"

/-- Why no code is generated from a tree. -/
inductive EmitError where
  | unknownSchema (verb : Verb) (path schema : String)
  | unknownAction (verb : Verb) (path action : String)
  | emptyPipeline (verb : Verb) (path : String)
  | unknownColumn (table column : String)
  | unknownTable (version table : String)
  | invalidPattern (schema field : String) (fault : Pattern.Fault)
  | unknownFormat (schema field format : String)
  | invalidActionName (action : String) (line : Nat) (fault : NameFault)
  deriving DecidableEq, Repr

def EmitError.message : EmitError → String
  | .unknownSchema verb path schema =>
    s!"[emit] route {verb.spelling} {path}: unknown schema `{schema}` in validate step"
  | .unknownAction verb path action =>
    s!"[emit] route {verb.spelling} {path}: unknown action `{action}`"
  | .emptyPipeline verb path =>
    s!"[emit] route {verb.spelling} {path}: pipeline has no action step"
  | .unknownColumn table column => s!"[emit] table `{table}` has no column `{column}`"
  | .unknownTable version table =>
    s!"[emit] migration {version}: no schema declares table `{table}`"
  | .invalidPattern schema field fault =>
    s!"[emit] {schema}.{field}: invalid pattern: {fault.message}"
  | .unknownFormat schema field format =>
    s!"[emit] {schema}.{field}: unknown format `{format}` (expected email, url or uuid)"
  | .invalidActionName action line fault =>
    s!"[emit] action `{action}` (line {line}): {fault.message}"

end BlockLang
