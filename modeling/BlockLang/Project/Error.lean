import BlockLang.Project.Config
import BlockLang.Project.Modules
import BlockLang.Validation.Record

/-! # Why a build fails -/

namespace BlockLang

def Json.malformedMessage : String := "not valid JSON"

inductive ConfigError where
  | io (path : String) (error : IoError)
  | malformed (path : String)
  | unsupportedVersion (path : String) (found : Nat)
  deriving DecidableEq, Repr

def ConfigError.message : ConfigError → String
  | .io path error => s!"failed to read {path}: {error.message}"
  | .malformed path => s!"invalid config {path}: {Json.malformedMessage}"
  | .unsupportedVersion path found =>
    s!"config {path} has version {found}, newer than supported version {Config.supportedVersion}"

inductive SampleFault where
  | io (error : IoError)
  | malformed
  | refused (failure : Failure)
  /-- The sample was not given as a schema and a file. -/
  | notAPair
  deriving DecidableEq, Repr

def SampleFault.message : SampleFault → String
  | .io error => error.message
  | .malformed => Json.malformedMessage
  | .refused failure => s!"{failure.message} ({Failure.status})"
  | .notAPair => "expected SCHEMA=FILE"

inductive BuildError where
  | config (error : ConfigError)
  | resolve (error : ResolveError)
  | emit (error : EmitError)
  | write (path : String) (error : IoError)
  | sample (path : String) (fault : SampleFault)
  | unknownSchema (name : String)
  deriving DecidableEq, Repr

namespace BuildError

def message : BuildError → String
  | .config error => error.message
  | .resolve error => error.message
  | .emit error => error.message
  | .write path error => s!"failed to write {path}: {error.message}"
  | .sample path fault => s!"sample {path}: {fault.message}"
  | .unknownSchema name => s!"unknown schema `{name}`"

/-- The exit code of the command line: 2 for faults of the sources, 1 for all
others. An unknown schema counts as a fault of the sources. -/
def exitCode : BuildError → Nat
  | .resolve _ | .emit _ | .unknownSchema _ => 2
  | .config _ | .write _ _ | .sample _ _ => 1

end BuildError

end BlockLang
