import BlockLang.Source.Body
import BlockLang.Source.Token
import BlockLang.Text.Lines

/-! # Syntax errors

Why a source has no tree: a token that cannot continue it, or a body without an end. An error
message can show the line it is about.
-/

namespace BlockLang

inductive Expectation where
  | mark (mark : Mark)
  | schemaName
  | fieldOrClose
  | typeName
  | argumentOrClose
  | argumentValue
  | actionName
  | parameterOrClose
  | bodyOpen
  | verbOrClose
  | routePath
  | step
  | migrationVersion
  | operation
  | tableName
  | columnName
  | columnType
  | importPath
  | closingQuote
  deriving DecidableEq, Repr

def Expectation.describe : Expectation → String
  | .mark m => (Token.Kind.mark m).describe
  | .schemaName => "schema name"
  | .fieldOrClose => r"field name or '}'"
  | .typeName => "type name"
  | .argumentOrClose => "field argument or ')'"
  | .argumentValue => "argument value"
  | .actionName => "action name"
  | .parameterOrClose => "parameter name or ')'"
  | .bodyOpen => r"'{' to open the action body"
  | .verbOrClose => r"HTTP verb or '}'"
  | .routePath => "route path string"
  | .step => "pipeline step"
  | .migrationVersion => "migration version"
  | .operation => "addColumn, dropColumn, createTable or dropTable"
  | .tableName => "table name string"
  | .columnName => "column name"
  | .columnType => "column type"
  | .importPath => "import path string"
  | .closingQuote => "closing '\"'"

inductive Found where
  | endOfInput
  | token (kind : Token.Kind) (text : String)
  deriving DecidableEq, Repr

def Found.describe : Found → String
  | .endOfInput => "end of input"
  | .token kind text =>
    if text.isEmpty then kind.describe else kind.describe ++ " `" ++ text ++ "`"

/-- A token, or the end of the source, where something else was expected. -/
structure ParseError where
  expected : Expectation
  found : Found
  line : Nat
  column : Nat
  deriving DecidableEq, Repr

/-- Why a source has no tree: for a token of it, or for a body that is not
closed. -/
inductive SyntaxError where
  | parse (error : ParseError)
  | block (error : BlockError)
  deriving DecidableEq, Repr

def ParseError.message (e : ParseError) : String :=
  s!"[parser] line {e.line}:{e.column}: expected " ++ e.expected.describe ++ ", found "
    ++ e.found.describe

def BlockError.message : BlockError → String
  | .noBrace line => s!"[extract] no '\x7b' found on line {line}"
  | .unbalanced _ line column depth =>
    s!"[extract] line {line}:{column}: block opened here is never closed "
      ++ s!"(depth {depth} at end of input)"

def BlockError.line : BlockError → Nat
  | .noBrace line | .unbalanced _ line _ _ => line

namespace SyntaxError

def message : SyntaxError → String
  | .parse e => e.message
  | .block e => e.message

def line : SyntaxError → Nat
  | .parse e => e.line
  | .block e => e.line

def lineNumber (n : Nat) : String :=
  let digits := toString n
  String.ofList (List.replicate (4 - digits.length) ' ') ++ digits

/-- The message, with the line of the source that it is about below it, if there
is such a line. -/
def explain (e : SyntaxError) (source : String) : String :=
  match (Text.lines source)[e.line - 1]? with
  | some text => e.message ++ "\n  " ++ lineNumber e.line ++ " | " ++ text
  | none => e.message

end SyntaxError

end BlockLang
