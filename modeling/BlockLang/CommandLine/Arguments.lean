import BlockLang.Sql.ListQuery

/-! # Arguments of the command line

Options that every command has may stand before the command or behind it, and behind it they
count more. An option is given at most once in each of the two places.
-/

namespace BlockLang.CommandLine

inductive Command where
  | build (outDir : Option String)
  | check (samples : List String)
  | inspect
  | statements (schema : String) (filters : List String) (sort : Option String)
  | configSchema
  deriving DecidableEq, Repr

/-- What all commands can be told. -/
structure Settings where
  root : String
  entry : Option String
  dialect : Option Dialect
  json : Bool
  deriving DecidableEq, Repr

/-- What the arguments ask for. -/
inductive Request where
  | run (settings : Settings) (command : Command)
  | version
  | help
  /-- The arguments make no sense. -/
  | misuse
  deriving DecidableEq, Repr

/-- The options and plain arguments in one of the two places. -/
structure Given where
  root : Option String := none
  entry : Option String := none
  dialect : Option Dialect := none
  verbose : Bool := false
  json : Bool := false
  outDir : Option String := none
  samples : List String := []
  filters : List String := []
  sort : Option String := none
  plain : List String := []

inductive Valued where
  | root
  | entry
  | dialect
  | outDir
  | sample
  | filter
  | sort
  deriving DecidableEq, Repr

def Valued.spelling : Valued → String
  | .root => "root"
  | .entry => "entry"
  | .dialect => "dialect"
  | .outDir => "out-dir"
  | .sample => "sample"
  | .filter => "filter"
  | .sort => "sort"

def common : List Valued := [.root, .entry, .dialect]

def once {α : Type} (old : Option α) (value : α) : Option (Option α) :=
  if old.isNone then some (some value) else none

def oncePath (old : Option String) (value : String) : Option (Option String) :=
  if value.isEmpty then none else once old value

namespace Given

def put? (g : Given) (option : Valued) (value : String) : Option Given :=
  match option with
  | .root => (oncePath g.root value).map fun root => { g with root }
  | .entry => (oncePath g.entry value).map fun entry => { g with entry }
  | .dialect => do
    let dialect ← once g.dialect (← Dialect.ofSpelling? value)
    return { g with dialect }
  | .outDir => (oncePath g.outDir value).map fun outDir => { g with outDir }
  | .sample => some { g with samples := g.samples ++ [value] }
  | .filter => some { g with filters := g.filters ++ [value] }
  | .sort => (once g.sort value).map fun sort => { g with sort }

def setVerbose? (g : Given) : Option Given :=
  if g.verbose then none else some { g with verbose := true }

def setJson? (g : Given) : Option Given := if g.json then none else some { g with json := true }

end Given

/-- Whether an argument is an option rather than a value. A single hyphen is a
value. -/
def isOption (arg : String) : Bool := arg.toList.head? == some '-' && arg != "-"

/-- The name of a long option and the value behind its equals sign, if it has
one. -/
def long? (arg : String) : Option (String × Option String) :=
  match arg.toList with
  | '-' :: '-' :: rest =>
    match rest.span (· != '=') with
    | (name, []) => some (String.ofList name, none)
    | (name, _ :: value) => some (String.ofList name, some (String.ofList value))
  | _ => none

/-- What an option does to the arguments before it: it adds to them, waits for a
value, or settles what is asked for. -/
inductive Effect where
  | given (g : Given)
  /-- The value of the option is the next argument. -/
  | awaiting (option : Valued)
  | version
  | help
  | misuse

def Effect.ofGiven? : Option Given → Effect
  | some g => .given g
  | none => .misuse

/-- Read the letters of a short option. Letters behind one that settles what is
asked for are not read. -/
def short (first : Bool) (g : Given) : List Char → Effect
  | [] => .given g
  | 'v' :: rest =>
    match g.setVerbose? with
    | some g => short first g rest
    | none => .misuse
  | 'h' :: _ => .help
  | 'V' :: _ => if first then .version else .misuse
  | _ => .misuse

def long (first : Bool) (valued : List Valued) (g : Given) (name : String)
    (value : Option String) : Effect :=
  match valued.find? (·.spelling = name), value with
  | some option, some value => .ofGiven? (g.put? option value)
  | some option, none => .awaiting option
  | none, some _ => .misuse
  | none, none =>
    if name = "verbose" then .ofGiven? g.setVerbose?
    else if name = "json" then .ofGiven? g.setJson?
    else if name = "help" then .help
    else if name = "version" ∧ first then .version
    else .misuse

def option (first : Bool) (valued : List Valued) (g : Given) (arg : String) : Effect :=
  match long? arg with
  | some (name, value) => long first valued g name value
  | none => short first g (arg.toList.drop 1)

inductive Behind where
  | given (g : Given)
  | help
  | misuse

/-- Read the arguments behind a command, one of which may wait for its value. -/
def behind (valued : List Valued) (waiting : Option Valued) (g : Given) : List String → Behind
  | [] => if waiting.isSome then .misuse else .given g
  | arg :: rest =>
    match waiting with
    | some option =>
      if isOption arg then .misuse
      else
        match g.put? option arg with
        | some g => behind valued none g rest
        | none => .misuse
    | none =>
      if arg = "--" then .given { g with plain := g.plain ++ rest }
      else if isOption arg then
        match option false valued g arg with
        | .given g => behind valued none g rest
        | .awaiting option => behind valued (some option) g rest
        | .help => .help
        | .version | .misuse => .misuse
      else behind valued none { g with plain := g.plain ++ [arg] } rest

def commands : List (String × List Valued) :=
  [("build", [.outDir]), ("check", [.sample]), ("inspect", []),
   ("statements", [.filter, .sort]), ("config-schema", [])]

def command? (name : String) (g : Given) : Option Command :=
  match name, g.plain with
  | "build", [] => some (.build g.outDir)
  | "check", [] => some (.check g.samples)
  | "inspect", [] => some .inspect
  | "statements", [schema] => some (.statements schema g.filters g.sort)
  | "config-schema", [] => some .configSchema
  | _, _ => none

def settings (before behind : Given) : Settings where
  root := (behind.root <|> before.root).getD "."
  entry := behind.entry <|> before.entry
  dialect := behind.dialect <|> before.dialect
  json := before.json || behind.json

def command (before : Given) (name : String) (rest : List String) : Request :=
  match commands.lookup name with
  | none => .misuse
  | some valued =>
    match behind (common ++ valued) none {} rest with
    | .help => .help
    | .misuse => .misuse
    | .given g =>
      match command? name g with
      | some command => .run (settings before g) command
      | none => .misuse

def helpOn : List String → Request
  | [] => .help
  | [name] => if name = "help" ∨ (commands.lookup name).isSome then .help else .misuse
  | _ => .misuse

/-- Read the arguments from the first on, one of which may wait for its value.
The first that is no option is the command. -/
def readFrom (waiting : Option Valued) (g : Given) : List String → Request
  | [] => .misuse
  | arg :: rest =>
    match waiting with
    | some option =>
      if isOption arg then .misuse
      else
        match g.put? option arg with
        | some g => readFrom none g rest
        | none => .misuse
    | none =>
      if arg = "--" then .misuse
      else if isOption arg then
        match option true common g arg with
        | .given g => readFrom none g rest
        | .awaiting option => readFrom (some option) g rest
        | .version => .version
        | .help => .help
        | .misuse => .misuse
      else if arg = "help" then helpOn rest
      else command g arg rest

def read (args : List String) : Request := readFrom none {} args

end BlockLang.CommandLine
