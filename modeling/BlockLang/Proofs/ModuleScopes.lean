import BlockLang.Proofs.ValidatorScopes

/-! # Names in scope in a server module

What the parts of a server module outside of the actions declare, and which names they use that they
do not declare themselves.
-/

namespace BlockLang.Server

open Code Scopes

/-! ## Statements and list queries -/

class QueryTexts : Prop where
  constant : Reads .block .start "export const " [] [] .declaring
  frozenList : Opens .block .other " = Object.freeze(" [] ["Object"] [⟨.group, [], []⟩] .start
  frozenObject : Opens .block .other r" = Object.freeze({" [] ["Object"]
    [⟨.block, [], []⟩, ⟨.group, [], []⟩] .start
  insert : Reads .block .start "insert: " [] [] .other
  update : Reads .block .start "update: " [] [] .other
  delete : Reads .block .start "delete: " [] [] .other
  findByKey : Reads .block .start "findByKey: " [] [] .other
  createTable : Reads .block .start "createTable: " [] [] .other
  none : Reads .block .other "null," [] [] .start
  unlisted : Opens .block .start "if (!" [] [] [⟨.group, [], []⟩] .other
  listsColumn : Reads .group .other ".includes(column)" [] ["column"] .other
  listsSort : Reads .group .other ".includes(sort.field)" [] ["sort"] .other
  throwColumn : Reads .block .start
    "throw new ValidationFailure(column, `Unknown filter column: ${column}`);" []
    ["ValidationFailure", "column", "column"] .start
  throwSort : Reads .block .start
    "throw new ValidationFailure(sort.field, `Unknown sort column: ${sort.field}`);" []
    ["ValidationFailure", "sort", "sort"] .start
  filters : Opens .block .start r"for (const [column, value] of Object.entries(filters)) {" [] []
    [⟨.block, [], []⟩, ⟨.head, ["column", "value"], ["Object", "filters"]⟩] .start
  push : Reads .block .start "values.push(value);" [] ["values", "value"] .start
  clause : Reads .block .start "clauses.push(`\"${column}\"=?`);" []
    ["clauses", "column"] .start
  numberedClause : Reads .block .start
    "clauses.push(`\"${column}\"=$${values.length}`);" []
    ["clauses", "column", "values"] .start
  sort : Opens .block .start r"if (sort) {" [] ["sort"] [⟨.block, [], []⟩] .start
  order : Reads .block .start ("sql += ` ORDER BY \"${sort.field}\" " ++
    r#"${sort.direction === "desc" ? "DESC" : "ASC"}`;"#) [] ["sql", "sort", "sort"]
    .start
  parameters : Opens .block .titled r"(filters = {}, sort = null) {" [] []
    [⟨.block, [], []⟩, ⟨.head, ["filters", "sort"], []⟩] .start
  clauses : Reads .block .start "const clauses = [];" ["clauses"] [] .start
  values : Reads .block .start "const values = [];" ["values"] [] .start
  select : Reads .block .start "let sql = " ["sql"] [] .other
  restrict : Reads .block .start
    "if (clauses.length > 0) sql += \" WHERE \" + clauses.join(\" AND \");" []
    ["clauses", "sql", "clauses"] .start
  result : Reads .block .start "return { sql, values };" [] ["sql", "values"] .start

set_option maxRecDepth 1000 in
instance queryTexts : QueryTexts := by
  constructor <;>
    first | exact opens_literal rfl (by decide) | exact reads_literals rfl rfl (by decide)

/-- The list of the columns of a schema is a constant of the module, and all
that it holds are strings. -/
theorem scoped_columns {s : Schema} (h : IsName s.name) :
    Scoped .block [.line ("export const " ++ columnsName s.name ++ " = Object.freeze("
      ++ strings s.columns ++ ");")] [columnsName s.name] ["Object"] := by
  have hopen := Reads.opens QueryTexts.constant (QueryTexts.frozenList.declare
    (isIdentifier_columnsName h) rfl rfl (by decide) (.inl ⟨rfl, rfl⟩))
  have hcolumns : Reads .group .start (strings s.columns) [] [] .other :=
    reads_strings s.columns rfl (.inr rfl)
  have hline : "export const " ++ columnsName s.name ++ " = Object.freeze(" ++ strings s.columns
      ++ ");" = "export const " ++ (columnsName s.name ++ " = Object.freeze(") ++ strings s.columns
        ++ ")" ++ ";" := by
    simp only [String.append_assoc]
    rfl
  rw [hline]
  exact scoped_line ((hopen.fill (hcolumns.fills (.inl rfl) rfl) (.inl rfl)).append reads_semicolon)

theorem scoped_statementLine (key : String) (h : Reads .block .start (key ++ ": ") [] [] .other)
    (value : Option String) : Scoped .block [statementLine (key, value)] [] [] := by
  have hcomma : Reads .block .other "," [] [] .start := reads_literal rfl (by decide)
  rw [statementLine]
  cases value with
  | none =>
      rw [String.append_assoc]
      exact scoped_line (h.append QueryTexts.none)
  | some text => exact scoped_line ((h.append (reads_string text rfl rfl)).append hcomma)

/-- The end of an object in parentheses that leaves what its entries use. -/
theorem closes_frozen {us : List String} :
    Closes ⟨.block, [], us⟩ [⟨.group, [], []⟩] r"});" .block us .start := by
  have hblock : Closes ⟨.block, [], us⟩ [] r"}" .group (us.filter (· ∉ ([] : List String)))
      .start := closes_block rfl
  have hfilter : us.filter (· ∉ ([] : List String)) = us := by simp
  rw [hfilter] at hblock
  exact (hblock.paren (.inr rfl) rfl).append reads_semicolon

/-- The statements of a schema are a constant too. -/
theorem scoped_statementsObject {schema : String} (h : IsName schema) (s : Statements) :
    Scoped .block (statementsObject schema s) [statementsName schema] ["Object"] := by
  have hopen := Reads.opens QueryTexts.constant (QueryTexts.frozenObject.declare
    (isIdentifier_statementsName h) rfl rfl (by decide) (.inl ⟨rfl, rfl⟩))
  rw [← String.append_assoc] at hopen
  have hlines : Scoped .block (s.named.map statementLine) [] [] :=
    ((((scoped_statementLine "insert" QueryTexts.insert _).append
      (scoped_statementLine "update" QueryTexts.update _)).append
      (scoped_statementLine "delete" QueryTexts.delete _)).append
      (scoped_statementLine "findByKey" QueryTexts.findByKey _)).append
      (scoped_statementLine "createTable" QueryTexts.createTable _)
  rw [statementsObject_eq]
  exact hlines.block hopen closes_frozen

/-- A guard on a column that was asked for looks into the columns of the
schema. -/
theorem scoped_columnGuard {schema column what root : String} (h : IsName schema) (test : String)
    (htest : ".includes(" ++ column ++ ")" = test) {cs : List Char}
    (hcs : test = String.ofList ('.' :: cs)) (hlists : Reads .group .other test [] [root] .other)
    (hthrow : Reads .block .start ("throw new ValidationFailure(" ++ column ++ ", `Unknown " ++ what
      ++ " column: " ++ r"${" ++ column ++ r"}`);") [] ["ValidationFailure", root, root]
      .start) :
    Scoped .block (columnGuard schema column what) []
      [columnsName schema, root, "ValidationFailure", root, root] := by
  have hcolumns : Reads .group .other (columnsName schema ++ test) [] [columnsName schema, root]
      .other := hlists.use (isIdentifier_columnsName h) rfl hcs (by decide) rfl
  have hbrace : Opens .block .other r" {" [] [] [⟨.block, [], []⟩] .start :=
    opens_literal rfl (by decide)
  have hopen := Reads.opens (QueryTexts.unlisted.fill (hcolumns.fills (.inl rfl) rfl) (.inl rfl))
    hbrace
  have hline : "if (!" ++ columnsName schema ++ ".includes(" ++ column ++ r")) {" =
      "if (!" ++ (columnsName schema ++ test) ++ ")" ++ r" {" := by
    simp only [← htest, String.append_assoc]
    rfl
  rw [columnGuard, hline]
  exact (scoped_line hthrow).block hopen (closes_block rfl)

def placeholderNames : Dialect → List String
  | .sqlite => []
  | .postgres => ["values"]

theorem scoped_clauseLine (d : Dialect) :
    Scoped .block [.line ("clauses.push(`\"${column}\"=" ++ lastPlaceholder d ++ "`);")] []
      (["clauses", "column"] ++ placeholderNames d) := by
  cases d with
  | sqlite => exact scoped_line QueryTexts.clause
  | postgres => exact scoped_line QueryTexts.numberedClause

/-- The code for the filters of a list query. -/
theorem scoped_filterCode {schema : String} (h : IsName schema) (d : Dialect) :
    Scoped .block (filterCode d schema) [] (["Object", "filters", columnsName schema,
      "ValidationFailure", "values", "clauses"] ++ placeholderNames d) := by
  have hguard : Scoped .block (columnGuard schema "column" "filter") []
      [columnsName schema, "column", "ValidationFailure", "column", "column"] :=
    scoped_columnGuard h ".includes(column)" rfl rfl QueryTexts.listsColumn QueryTexts.throwColumn
  have hcode := hguard.append ((scoped_line QueryTexts.push).append (scoped_clauseLine d))
  have hnames : ["Object", "filters", columnsName schema, "ValidationFailure", "values", "clauses"]
      ++ placeholderNames d = [] ++ (["Object", "filters"] ++ ([columnsName schema, "column",
        "ValidationFailure", "column", "column"] ++ (["values", "value"] ++ (["clauses", "column"]
        ++ placeholderNames d))).filter (· ∉ [] ++ ([] ++ []))).filter
          (· ∉ ["column", "value"]) := by
    have hcolumns : columnsName schema ∉ ["column", "value"] :=
      not_mem_of_looksDeclared (looksDeclared_columnsName schema) (by decide)
    simp only [List.mem_cons, List.not_mem_nil, or_false, not_or] at hcolumns
    cases d <;> simp [placeholderNames, hcolumns]
  rw [hnames]
  exact hcode.block QueryTexts.filters closes_body

/-- The code for the order of a list query. -/
theorem scoped_sortCode {schema : String} (h : IsName schema) :
    Scoped .block (sortCode schema) [] ["sort", columnsName schema, "sort", "ValidationFailure",
      "sort", "sort", "sql", "sort", "sort"] := by
  have hguard : Scoped .block (columnGuard schema "sort.field" "sort") []
      [columnsName schema, "sort", "ValidationFailure", "sort", "sort"] :=
    scoped_columnGuard h ".includes(sort.field)" rfl rfl QueryTexts.listsSort QueryTexts.throwSort
  exact (hguard.append (scoped_line QueryTexts.order)).block QueryTexts.sort (closes_block rfl)

def listUses (schema : String) : List String :=
  ["Object", columnsName schema, "ValidationFailure", columnsName schema, "ValidationFailure"]

/-- A builder of list queries declares its own name. -/
theorem scoped_listBuilder (d : Dialect) {schema : String} (h : IsName schema) :
    Scoped .block (listBuilder d schema) [listQueryName schema] (listUses schema) := by
  have hselect : Scoped .block
      [.line ("let sql = " ++ string ("SELECT * FROM " ++ Sql.identifier schema) ++ ";")] ["sql"]
      [] :=
    scoped_line ((Reads.append QueryTexts.select (reads_string _ rfl rfl)).append reads_semicolon)
  have hstart := (scoped_line QueryTexts.clauses).append (scoped_line QueryTexts.values)
  have hcode := (((hstart.append (scoped_filterCode h d)).append
    (hselect.append (scoped_line QueryTexts.restrict))).append (scoped_sortCode h)).append
      (scoped_line QueryTexts.result)
  have hfunction := Scoped.function hcode (isIdentifier_listQueryName h) rfl QueryTexts.parameters
  have hnames : listUses schema = List.filter (· ∉ ["filters", "sort"])
      (List.filter (· ∉ ["clauses", "values", "sql"])
        ([] ++ [] ++ (["Object", "filters", columnsName schema, "ValidationFailure", "values",
          "clauses"] ++ placeholderNames d) ++ ([] ++ ["clauses", "sql", "clauses"]) ++ ["sort",
          columnsName schema, "sort", "ValidationFailure", "sort", "sort", "sql", "sort", "sort"]
          ++ ["sql", "values"])) := by
    have hcolumns : columnsName schema ∉ ["filters", "sort", "clauses", "values", "sql"] :=
      not_mem_of_looksDeclared (looksDeclared_columnsName schema) (by decide)
    simp only [List.mem_cons, List.not_mem_nil, or_false, not_or] at hcolumns
    cases d <;> simp [listUses, placeholderNames, hcolumns]
  rw [hnames]
  exact hfunction

/-! ## Migrations and tables -/

class HandlerTexts : Prop where
  migrations : Reads .block .start "export const migrations = Object.freeze([]);" ["migrations"]
    ["Object"] .start
  migrationList : Opens .block .start "export const migrations = Object.freeze([" ["migrations"]
    ["Object"] [⟨.group, [], []⟩, ⟨.group, [], []⟩] .start
  version : Reads .block .start "version: " [] [] .other
  statements : Opens .block .start "statements: [" [] [] [⟨.group, [], []⟩] .start
  prepareTables : Opens .block .start r"export function prepareTables(db) {" ["prepareTables"] []
    [⟨.block, [], []⟩, ⟨.head, ["db"], []⟩] .start
  noTables : Reads .block .start "return Object.freeze({});" [] ["Object"] .start
  tables : Opens .block .start r"return Object.freeze({" [] ["Object"]
    [⟨.block, [], []⟩, ⟨.group, [], []⟩] .start
  access : Opens .block .other ": tableAccess(" [] ["tableAccess"] [⟨.group, [], []⟩] .start
  database : Reads .group .start "db, " [] ["db"] .start
  createHandlers : Opens .block .start r"export function createHandlers(db) {"
    ["createHandlers"] [] [⟨.block, [], []⟩, ⟨.head, ["db"], []⟩] .start
  prepared : Reads .block .start "const tables = prepareTables(db);" ["tables"]
    ["prepareTables", "db"] .start
  handlers : Opens .block .start "return [" [] [] [⟨.group, [], []⟩] .start
  method : Reads .block .start "method: " [] [] .other
  path : Reads .block .start "path: " [] [] .other
  handle : Opens .block .start r"async handle(req) {" [] []
    [⟨.block, [], []⟩, ⟨.head, ["req"], []⟩] .start
  health : Reads .block .start r#"return { status: 200, body: { status: "ok" } };"# [] []
    .start
  context : Reads .block .start (r"const ctx = { user: null, params: req.params ?? {}, "
    ++ r"query: req.query ?? {}, tables };") ["ctx"] ["req", "req", "tables"] .start
  attempt : Opens .block .start r"try {" [] [] [⟨.block, [], []⟩] .start
  data : Reads .block .start
    "let data = { ...ctx.query, ...(req.body ?? {}), ...ctx.params };" ["data"]
    ["ctx", "req", "ctx"] .start
  result : Reads .block .start "return { status: 200, body: data };" [] ["data"] .start
  caught : Opens .block .start r" catch (err) {" [] [] [⟨.block, [], []⟩, ⟨.head, ["err"], []⟩]
    .start
  failure : Reads .block .start "const failure = normalizeError(err);" ["failure"]
    ["normalizeError", "err"] .start
  failed : Reads .block .start
    "return { status: failure.status, body: { error: failure.message } };" []
    ["failure", "failure"] .start
  user : Reads .block .start "ctx.user = await authGate(req);" [] ["ctx", "authGate", "req"] .start
  validated : Reads .block .start "data = " [] ["data"] .other
  validation : Reads .block .other "(data);" [] ["data"] .start
  awaited : Reads .block .start "data = await " [] ["data"] .other
  call : Reads .block .other "(data, ctx);" [] ["data", "ctx"] .start
  success : Reads .block .start "if (data === undefined) data = { success: true };" []
    ["data", "undefined", "data"] .start
  imports : Reads .block .start
    "import { tableAccess, authGate, normalizeError, ValidationFailure } from "
    runtimeImports [] (.name true "from")

set_option maxRecDepth 1000 in
instance handlerTexts : HandlerTexts := by
  constructor <;>
    first | exact opens_literal rfl (by decide) | exact reads_literals rfl rfl (by decide)

theorem reads_comma {K : Scopes.Kind} (hK : K.isPlain = true) {b : Before}
    (hb : b = .other ∨ b = .start) : Reads K b "," [] [] .start := by
  rcases hb with rfl | rfl <;> cases K <;>
    first | exact reads_literal rfl (by decide) | cases hK

theorem scoped_migrationObject (version : String) (statements : List String) :
    Scoped .group (migrationObject version statements) [] [] := by
  have hversion : Scoped .block [.line ("version: " ++ string version ++ ",")] [] [] :=
    scoped_line (Reads.append (Reads.append HandlerTexts.version (reads_string _ rfl rfl))
      (reads_comma rfl (.inl rfl)))
  have hstatements : Scoped .group (statements.map fun s => .line (string s ++ ",")) [] [] := by
    rw [List.map_eq_flatMap]
    exact scoped_flatMap_nameless fun s _ =>
      scoped_line (Reads.append (reads_string s rfl rfl) (reads_comma rfl (.inl rfl)))
  have hopen : Opens .group .start r"{" [] [] [⟨.block, [], []⟩] .start :=
    opens_literal rfl (by decide)
  have hlist := hstatements.block HandlerTexts.statements
    ((closes_group rfl).append (reads_comma rfl (.inl rfl)))
  exact (hversion.append hlist).block hopen
    ((closes_block rfl).append (reads_comma rfl (.inr rfl)))

/-- The list of migrations is there even if a project has none, and it uses
nothing but the freezing of objects. -/
theorem scoped_migrationList (migrations : List (String × List String)) :
    Scoped .block (migrationList migrations) ["migrations"] ["Object"] := by
  unfold migrationList
  split
  · exact scoped_line HandlerTexts.migrations
  · have hobjects := scoped_flatMap_nameless fun m (_ : m ∈ migrations) =>
      scoped_migrationObject m.1 m.2
    exact hobjects.block HandlerTexts.migrationList
      (((closes_group rfl).paren (.inl rfl) rfl).append reads_semicolon)

def tableUses (schema : String) : List String := ["tableAccess", statementsName schema]

theorem scoped_tableLine {s : Schema} (h : IsName s.name) :
    Scoped .block [.line (s.name ++ ": tableAccess(db, " ++ string s.name ++ ", "
      ++ statementsName s.name ++ "),")] [] ["tableAccess", "db", statementsName s.name] := by
  have harguments := (Reads.append HandlerTexts.database (reads_stringItem s.name)).fills_word
    (isIdentifier_statementsName h) (K := .block) rfl
  have hline : s.name ++ ": tableAccess(db, " ++ string s.name ++ ", " ++ statementsName s.name
      ++ ")," = s.name ++ ": tableAccess(" ++ ("db, " ++ (string s.name ++ ", ")
        ++ statementsName s.name) ++ ")" ++ "," := by
    simp only [String.append_assoc]
    rfl
  rw [hline]
  exact scoped_line (((HandlerTexts.access.key h rfl rfl).fill harguments (.inl rfl)).append
    (reads_comma rfl (.inl rfl)))

/-- The tables are made by a function of the module from the statements of all
schemas, in the order of the schemas. -/
theorem scoped_prepareTables {schemas : List Schema} (h : ∀ s ∈ schemas, IsName s.name) :
    Scoped .block (prepareTables schemas) ["prepareTables"]
      ("Object" :: schemas.flatMap fun s => tableUses s.name) := by
  have hlines : Scoped .block (schemas.map fun s => .line (s.name ++ ": tableAccess(db, "
      ++ string s.name ++ ", " ++ statementsName s.name ++ "),")) []
      (schemas.flatMap fun s => ["tableAccess", "db", statementsName s.name]) := by
    rw [List.map_eq_flatMap]
    exact scoped_flatMap_using fun s hs => scoped_tableLine (h s hs)
  have hbody : Scoped .block (if schemas.isEmpty then [.line "return Object.freeze({});"]
      else block r"return Object.freeze({" (schemas.map fun s => .line (s.name
        ++ ": tableAccess(db, " ++ string s.name ++ ", " ++ statementsName s.name ++ "),"))
          r"});") []
      ("Object" :: schemas.flatMap fun s => ["tableAccess", "db", statementsName s.name]) := by
    split
    next hempty =>
      rw [List.isEmpty_iff.mp hempty]
      exact scoped_line HandlerTexts.noTables
    next => exact hlines.block HandlerTexts.tables closes_frozen
  -- The function binds `db` itself, and no schema names its statements so.
  have hnames : "Object" :: schemas.flatMap (fun s => tableUses s.name) =
      [] ++ List.filter (· ∉ ["db"]) ([] ++ List.filter (· ∉ ([] : List String)) ("Object" ::
        schemas.flatMap fun s => ["tableAccess", "db", statementsName s.name])) := by
    have hstatements (s : Schema) : statementsName s.name ≠ "db" := by
      have hdb : statementsName s.name ∉ ["db"] :=
        not_mem_of_looksDeclared (looksDeclared_statementsName s.name) (by decide)
      simpa using hdb
    simp [List.filter_flatMap, tableUses, hstatements]
  rw [hnames]
  exact hbody.block HandlerTexts.prepareTables closes_body

/-! ## Handlers -/

def stepNames : Step → List String
  | .auth => ["ctx", "authGate", "req"]
  | .validate schema => ["data", validatorName schema, "data"]
  | .action name => ["data", name, "data", "ctx", "data", "undefined", "data"]

/-- Whether what a step names can be used where handlers run their steps. -/
def Usable : Step → Prop
  | .auth => True
  | .validate schema => IsName schema
  | .action name => IsIdentifier name ∧ name ∉ handlerLocals

/-- The lines of a step use the data and the context of the handler, besides the
one name that the step itself brings in. -/
theorem scoped_stepLines {step : Step} (h : Usable step) :
    Scoped .block (stepLines step) [] (stepNames step) := by
  cases step with
  | auth => exact scoped_line HandlerTexts.user
  | validate schema =>
      have hcall := Reads.append HandlerTexts.validated (HandlerTexts.validation.use
        (isIdentifier_validatorName h) rfl rfl (by decide) rfl)
      rw [← String.append_assoc] at hcall
      exact scoped_line hcall
  | action name =>
      have hcall := Reads.append HandlerTexts.awaited (HandlerTexts.call.use h.1 rfl rfl
        (by decide) rfl)
      rw [← String.append_assoc] at hcall
      exact (scoped_line hcall).append (scoped_line HandlerTexts.success)

/-- A handler is a function with the request as its parameter. -/
theorem scoped_handler (verb : Verb) (path : String) {code : List Piece} {ds us : List String}
    (h : Scoped .block code ds us) :
    Scoped .group (handler verb path code) [] ((us.filter (· ∉ ds)).filter (· ∉ ["req"])) := by
  have hentry {key : String} (hkey : Reads .block .start key [] [] .other) (value : String) :
      Scoped .block [.line (key ++ string value ++ ",")] [] [] :=
    scoped_line ((hkey.append (reads_string value rfl rfl)).append (reads_comma rfl (.inl rfl)))
  have hopen : Opens .group .start r"{" [] [] [⟨.block, [], []⟩] .start :=
    opens_literal rfl (by decide)
  have hmethod : Scoped .block (block r"async handle(req) {" code r"},") []
      ((us.filter (· ∉ ds)).filter (· ∉ ["req"])) :=
    h.block HandlerTexts.handle (closes_body.append (reads_comma rfl (.inr rfl)))
  have hobject := (((hentry HandlerTexts.method verb.spelling).append
    (hentry HandlerTexts.path path)).append hmethod).block hopen
      ((closes_block rfl).append (reads_comma rfl (.inr rfl)))
  have hfilter (names : List String) : names.filter (· ∉ ([] : List String)) = names := by simp
  have hnames := hfilter ((us.filter (· ∉ ds)).filter (· ∉ ["req"]))
  rw [← hnames]
  exact hobject

/-- The names that a handler with some steps uses and does not declare. -/
def routeNames (steps : List Step) : List String :=
  "tables" :: (steps.flatMap stepNames).filter (· ∉ ["req", "ctx", "data"]) ++ ["normalizeError"]

/-- The handler of a route uses the names of its steps in their order, and then
what makes an answer from a failure. -/
theorem scoped_routeHandler {r : Route} (h : ∀ step ∈ r.pipeline, Usable step) :
    Scoped .group (routeHandler r) [] (routeNames r.pipeline) := by
  have hsteps := scoped_flatMap_using fun step hstep => scoped_stepLines (h step hstep)
  have htry := ((scoped_line HandlerTexts.data).append hsteps).append
    (scoped_line HandlerTexts.result)
  have hcatch := (scoped_line HandlerTexts.failure).append (scoped_line HandlerTexts.failed)
  have hbranches := htry.branches hcatch HandlerTexts.attempt HandlerTexts.caught closes_body rfl
  have hcode := (scoped_line HandlerTexts.context).append hbranches
  refine (scoped_handler r.verb r.path hcode).of_eq ?_ ?_
  · simp [routeHandler]
  · simp [routeNames]

theorem scoped_healthHandler : Scoped .group healthHandler [] [] :=
  scoped_handler .get healthPath (scoped_line HandlerTexts.health)

def stepUses : Step → List String
  | .auth => ["authGate"]
  | .validate schema => [validatorName schema]
  | .action name => [name, "undefined"]

def handlerUses (routes : List Route) : List String :=
  "prepareTables" :: routes.flatMap fun r => r.pipeline.flatMap stepUses ++ ["normalizeError"]

/-- Nothing that a usable step brings in is hidden by what handlers declare
around it. -/
theorem filter_stepNames {step : Step} (h : Usable step) :
    (stepNames step).filter (· ∉ ["req", "ctx", "data", "tables", "db"]) = stepUses step := by
  cases step with
  | auth => rfl
  | validate schema =>
      have hlocal : validatorName schema ∉ ["req", "ctx", "data", "tables", "db"] :=
        not_mem_of_looksDeclared (looksDeclared_validatorName schema) (by decide)
      simp only [List.mem_cons, List.not_mem_nil, or_false, not_or] at hlocal
      simp [stepNames, stepUses, hlocal]
  | action name =>
      have hlocal := h.2
      simp only [handlerLocals, List.mem_cons, List.not_mem_nil, or_false, not_or] at hlocal
      simp [stepNames, stepUses, hlocal]

theorem filter_routeNames {steps : List Step} (h : ∀ step ∈ steps, Usable step) :
    ((routeNames steps).filter (· ∉ ["tables"])).filter (· ∉ ["db"]) =
      steps.flatMap stepUses ++ ["normalizeError"] := by
  have hsteps : (steps.flatMap stepNames).filter (· ∉ ["req", "ctx", "data", "tables", "db"]) =
      steps.flatMap stepUses := by
    rw [List.filter_flatMap]
    exact List.flatMap_congr fun step hstep => filter_stepNames (h step hstep)
  rw [List.filter_filter_not_mem, routeNames, List.filter_append, List.filter_cons_of_neg (by simp),
    List.filter_filter_not_mem, ← hsteps]
  rfl

/-- The handlers of all routes use, of what is around them, only the tables and
what the steps of the routes name. -/
theorem scoped_createHandlers {routes : List Route}
    (h : ∀ r ∈ routes, ∀ step ∈ r.pipeline, Usable step) :
    Scoped .block (createHandlers routes) ["createHandlers"] (handlerUses routes) := by
  have hhealth : Scoped .group (if routes.any isHealth then [] else healthHandler) [] [] := by
    split
    · exact scoped_nil
    · exact scoped_healthHandler
  have hroutes := scoped_flatMap_using fun r hr => scoped_routeHandler (h r hr)
  have hlist := (hhealth.append hroutes).block HandlerTexts.handlers
    ((closes_group rfl).append reads_semicolon)
  have hcode := ((scoped_line HandlerTexts.prepared).append hlist).block
    HandlerTexts.createHandlers closes_body
  refine hcode.of_eq rfl ?_
  have hnames : (routes.flatMap fun r => ((routeNames r.pipeline).filter (· ∉ ["tables"])).filter
      (· ∉ ["db"])) = routes.flatMap fun r => r.pipeline.flatMap stepUses ++ ["normalizeError"] :=
    List.flatMap_congr fun r hr => filter_routeNames (h r hr)
  rw [handlerUses, ← hnames]
  simp [List.filter_flatMap]

/-! ## The module -/

theorem scoped_importLine (options : EmitOptions) :
    Scoped .block [importLine options] runtimeImports [] := by
  exact scoped_line ((HandlerTexts.imports.append (reads_string _ rfl rfl)).append reads_semicolon)

theorem scoped_comment {text : String} (h : ∀ c ∈ text.toList, c ≠ '\n') :
    Scoped .block [.line ("//" ++ text)] [] [] := by
  intro D U S
  rw [List.append_nil, List.append_nil]
  exact spans_comment h _

theorem scoped_title {name : String} (h : IsName name) :
    Scoped .block [.blank, .line ("// ── " ++ name ++ " ──"), .blank] [] [] := by
  have hname : ∀ c ∈ name.toList, c ≠ '\n' := by
    rintro c hc rfl
    cases h.isNamePart _ hc
  have hfront : ∀ c ∈ " ── ".toList, c ≠ '\n' := by simp
  have hback : ∀ c ∈ " ──".toList, c ≠ '\n' := by simp
  have htitle : Scoped .block [.line ("//" ++ (" ── " ++ name ++ " ──"))] [] [] := by
    refine scoped_comment ?_
    rw [String.toList_append, String.toList_append]
    exact List.forall_mem_append.mpr ⟨List.forall_mem_append.mpr ⟨hfront, hname⟩, hback⟩
  have htext : "// ── " ++ name ++ " ──" = "//" ++ (" ── " ++ name ++ " ──") := by
    simp only [← String.append_assoc]
    rfl
  rw [htext]
  exact (scoped_blank.append htitle).append scoped_blank

structure Nameable (t : Tree) : Prop where
  schemas : ∀ s ∈ t.schemas, IsName s.name
  steps : ∀ r ∈ t.routes, ∀ step ∈ r.pipeline, Usable step

namespace Part

def declared (t : Tree) : Part → List String
  | header | title _ => []
  | importing => runtimeImports
  | validator s => [validatorName s.name]
  | columns s => [columnsName s.name]
  | statements s => [statementsName s.name]
  | listing s => [listQueryName s.name]
  | actions => t.actions.map Action.name
  | migrations => ["migrations"]
  | tables => ["prepareTables"]
  | handlers => ["createHandlers"]

/-- The names that a part besides the actions uses and does not declare, with
all that its own functions declare taken out. -/
def used (t : Tree) : Part → List String
  | header | title _ | importing | actions => []
  | validator s => validatorUses (s.checks.toOption.getD [])
  | columns _ | statements _ | migrations => ["Object"]
  | listing s => listUses s.name
  | tables => "Object" :: t.schemas.flatMap fun s => tableUses s.name
  | handlers => handlerUses t.routes

/-- Each part of a module besides the actions declares and uses exactly what its
tables of names say. -/
theorem scoped_code (options : EmitOptions) {t : Tree} (h : Nameable t) {p : Part}
    (hp : p ∈ parts t) (hactions : p ≠ .actions) :
    Scoped .block (p.code options t) (p.declared t) (p.used t) := by
  cases p with
  | header =>
      exact @scoped_comment " Generated by blocksmith. Do not edit." (by simp)
  | importing => exact scoped_importLine options
  | title s => exact scoped_title (h.schemas s (by simpa [parts] using hp))
  | validator s => exact scoped_validator (h.schemas s (by simpa [parts] using hp)) _
  | columns s =>
      have hcolumns := scoped_columns (h.schemas s (by simpa [parts] using hp))
      exact (scoped_blank.append hcolumns).append scoped_blank
  | statements s => exact scoped_statementsObject (h.schemas s (by simpa [parts] using hp)) _
  | listing s =>
      exact scoped_blank.append (scoped_listBuilder _ (h.schemas s (by simpa [parts] using hp)))
  | actions => exact absurd rfl hactions
  | migrations => exact scoped_blank.append (scoped_migrationList _)
  | tables => exact scoped_blank.append (scoped_prepareTables h.schemas)
  | handlers => exact scoped_blank.append (scoped_createHandlers h.steps)

end Part

def partsBefore (t : Tree) : List Part :=
  [Part.header, Part.importing]
    ++ t.schemas.flatMap fun s =>
      [Part.title s, Part.validator s, Part.columns s, Part.statements s, Part.listing s]

def partsBehind : List Part := [Part.migrations, Part.tables, Part.handlers]

theorem parts_eq (t : Tree) : parts t = partsBefore t ++ .actions :: partsBehind := rfl

theorem ne_actions_of_mem {t : Tree} {p : Part} (h : p ∈ partsBefore t ++ partsBehind) :
    p ≠ .actions := by
  rintro rfl
  simp [partsBefore, partsBehind] at h

/-- The text of a module without its actions declares and uses what its other
parts do. -/
theorem read?_outside (options : EmitOptions) {t : Tree} (h : Nameable t) :
    Scopes.read? (String.join ((partsBefore t).map (Part.text options t))
      ++ String.join (partsBehind.map (Part.text options t))) =
        some ((partsBefore t ++ partsBehind).flatMap (Part.declared t),
          (partsBefore t ++ partsBehind).flatMap (Part.used t)) := by
  have hcode : Scoped .block ((partsBefore t ++ partsBehind).flatMap (Part.code options t))
      ((partsBefore t ++ partsBehind).flatMap (Part.declared t))
      ((partsBefore t ++ partsBehind).flatMap (Part.used t)) := by
    refine scoped_flatMap fun p hp => Part.scoped_code options h ?_ (ne_actions_of_mem hp)
    rw [parts_eq, List.mem_append, List.mem_cons]
    rcases List.mem_append.mp hp with hp | hp
    · exact .inl hp
    · exact .inr (.inr hp)
  have htext : render ((partsBefore t ++ partsBehind).flatMap (Part.code options t)) =
      String.join ((partsBefore t ++ partsBehind).map (Part.text options t)) :=
    render_flatMap fun p _ => p.level_code options t
  rw [← String.join_append, ← List.map_append, ← htext]
  exact hcode.read?

end BlockLang.Server
