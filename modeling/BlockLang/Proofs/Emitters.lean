import BlockLang.Proofs.Blocks
import BlockLang.Proofs.GeneratedCode
import BlockLang.Proofs.Lists

/-! # The emitters

Each emitter of the server module writes code that leads from code to code at its own depth of
braces. Strings of the tree are written quoted; only names and bodies are written as they are, so
only these are asked about.
-/

namespace BlockLang

namespace Server

open Code Text

/-! ## Validators -/

/-- A list of strings in brackets leads from code to code, whatever the strings
hold: all of them are quoted. -/
theorem passes_strings (values : List String) : Passes 0 0 (strings values) := by
  refine Passes.around rfl (passes_intercalate rfl ?_) rfl
  intro s hs
  obtain ⟨value, -, rfl⟩ := List.mem_map.mp hs
  exact passes_quoted 0 value

theorem passes_constructor (p : Pattern) : Passes 0 0 p.constructor := by
  unfold Pattern.constructor
  split
  · exact Passes.around rfl (passes_quoted 0 _) rfl
  · exact Passes.around (Passes.around rfl (passes_quoted 0 _) rfl) (passes_quoted 0 _) rfl

/-- The test of a guard is code with quoted texts and numerals in it, so nothing
that a schema says can end it early. -/
theorem passes_refusal (guard : Guard) : Passes 0 0 (refusal guard) := by
  cases guard with
  | isText | isNumber | isWhole => rfl
  | minLength x | maxLength x | atLeast x | atMost x => exact Passes.append rfl (passes_number x 0)
  | oneOf values => exact Passes.around rfl (passes_strings values) rfl
  | fits p | hasFormat _ p => exact Passes.around rfl (passes_constructor p) rfl

/-- A failure that is thrown leads from code to code with any message, as long
as its field does. -/
theorem passes_throwFailure {field : String} (h : Passes 0 0 field) (message : String) :
    Passes 0 0 (throwFailure field message) :=
  Passes.around (Passes.around rfl h rfl) (passes_quoted 0 message) rfl

theorem covers_guardLine (field : String) (guard : Guard) : Covers 0 0 [guardLine field guard] :=
  covers_line (Passes.append (Passes.around rfl (passes_refusal guard) rfl)
    (passes_throwFailure (passes_quoted 0 field) _))

theorem covers_storeLine (field : String) {value : String} (h : Passes 0 0 value) :
    Covers 0 0 [storeLine field value] :=
  covers_line (Passes.around (Passes.around rfl (passes_quoted 0 field) rfl) h rfl)

theorem covers_absentLine (c : Check) : Covers 0 0 [absentLine c] := by
  unfold absentLine
  split
  · exact covers_storeLine c.field rfl
  · exact covers_line (passes_throwFailure (passes_quoted 0 c.field) _)

/-- The lines for a value that is present, for each kind of check. -/
theorem covers_presentLines (c : Check) : Covers 0 0 (presentLines c) := by
  have hguards : Covers 0 0 (c.guards.map (guardLine c.field)) :=
    covers_map fun guard _ => covers_guardLine c.field guard
  unfold presentLines
  simp only
  split
  · exact hguards.append (covers_storeLine c.field rfl)
  · exact hguards.append (covers_storeLine c.field rfl)
  · exact covers_cons (covers_line rfl) (hguards.append (covers_storeLine c.field rfl))
  · exact covers_cons (covers_line rfl) (hguards.append (covers_storeLine c.field rfl))
  · exact hguards.append (covers_storeLine c.field rfl)

/-- The code of a check is a block of its own with a condition inside, and all
the braces of it are those of the generator. -/
theorem covers_checkCode (c : Check) : Covers 0 0 (checkCode c) := by
  have hvalue : Covers 0 0 [.line ("const value = input[" ++ string c.field ++ "];")] :=
    covers_line (Passes.around rfl (passes_quoted 0 c.field) rfl)
  have habsent := (covers_absentLine c).at 2
  have hpresent := (covers_presentLines c).at 2
  refine covers_block rfl (Covers.append (Covers.append ?_ hpresent) (covers_closing rfl)) rfl
  exact covers_cons (hvalue.at 1) (covers_cons (covers_opening rfl)
    (covers_cons habsent (covers_reopening rfl)))

theorem covers_objectCode : Covers 0 0 objectCode := by
  have hfield : Passes 0 0 "null" := rfl
  exact covers_block rfl (Covers.at (covers_line (passes_throwFailure hfield _)) 1) rfl

variable {schema : String}

/-- A validator is one block behind the line with its name. -/
theorem frames_validator (h : Passes 0 0 schema) (checks : List Check) :
    Frames (validator schema checks)
      ("export function " ++ validatorName schema ++ r"(input) {") := by
  have hname : Passes 0 0 (validatorName schema) := Passes.append rfl h
  have hchecks : Covers 0 0 (checks.flatMap checkCode) :=
    covers_flatMap fun c _ => covers_checkCode c
  refine .block (Passes.around rfl hname rfl) ?_ rfl rfl
  exact Covers.append (Covers.append (covers_objectCode.append (covers_line rfl)) hchecks)
    (covers_line rfl)

/-! ## Statements and migrations -/

/-- The code that refuses a column, for the columns that are named in it. -/
theorem covers_columnGuard {column what : String} (h : Passes 0 0 schema)
    (hcolumn : Passes 0 0 column)
    (hthrow : Passes 0 0 ("throw new ValidationFailure(" ++ column ++ ", `Unknown " ++ what
      ++ " column: " ++ r"${" ++ column ++ r"}`);")) :
    Covers 0 0 (columnGuard schema column what) := by
  have hname : Passes 0 0 (columnsName schema) := h.append rfl
  exact covers_block (Passes.around (Passes.around rfl hname rfl) hcolumn rfl)
    ((covers_line hthrow).at 1) rfl

theorem covers_filterCode (d : Dialect) (h : Passes 0 0 schema) :
    Covers 0 0 (filterCode d schema) := by
  have hguard : Covers 0 0 (columnGuard schema "column" "filter") := covers_columnGuard h rfl rfl
  have hclause :
      Passes 0 0 ("clauses.push(`\"${column}\"=" ++ lastPlaceholder d ++ "`);") := by
    cases d <;> rfl
  refine covers_block rfl (Covers.at ?_ 1) rfl
  exact hguard.append (covers_cons (covers_line rfl) (covers_line hclause))

theorem covers_sortCode (h : Passes 0 0 schema) : Covers 0 0 (sortCode schema) := by
  have hguard : Covers 0 0 (columnGuard schema "sort.field" "sort") := covers_columnGuard h rfl rfl
  refine covers_block rfl (Covers.at ?_ 1) rfl
  exact hguard.append (covers_line rfl)

theorem frames_listBuilder (d : Dialect) (h : Passes 0 0 schema) : Frames (listBuilder d schema)
      ("export function " ++ listQueryName schema ++ r"(filters = {}, sort = null) {") := by
  have hname : Passes 0 0 (listQueryName schema) := Passes.around rfl h rfl
  refine .block (Passes.around rfl hname rfl) ?_ rfl rfl
  refine Covers.append (Covers.append (Covers.append (Covers.append ?_ (covers_filterCode d h)) ?_)
    (covers_sortCode h)) (covers_line rfl)
  · exact covers_cons (covers_line rfl) (covers_line rfl)
  · exact covers_cons (covers_line (Passes.around rfl (passes_quoted 0 _) rfl)) (covers_line rfl)

/-- The statements of a schema are one object behind the line with its name. -/
theorem frames_statementsObject (h : Passes 0 0 schema) (s : Statements) :
    Frames (statementsObject schema s)
      ("export const " ++ statementsName schema ++ r" = Object.freeze({") := by
  have hname : Passes 0 0 (statementsName schema) := h.append rfl
  refine .block (Passes.around rfl hname rfl) ?_ rfl rfl
  refine covers_cons (covers_line (Passes.around rfl (passes_quoted 0 _) rfl))
    (covers_cons (covers_line (Passes.around rfl ?_ rfl))
      (covers_cons (covers_line (Passes.around rfl (passes_quoted 0 _) rfl))
        (covers_cons (covers_line (Passes.around rfl (passes_quoted 0 _) rfl))
          (covers_line (Passes.around rfl (passes_quoted 0 _) rfl)))))
  split
  · exact passes_quoted 0 _
  · rfl

theorem covers_queries (d : Dialect) {s : Schema} (h : Passes 0 0 s.name) :
    Covers 0 0 (queries d s) := by
  have hname : Passes 0 0 (columnsName s.name) := h.append rfl
  refine Covers.append (Covers.append (Covers.append ?_ (frames_statementsObject h _).covers)
    (covers_blank 0)) (frames_listBuilder d h).covers
  exact covers_cons (covers_line (Passes.around (Passes.around rfl hname rfl)
    (passes_strings s.columns) rfl)) (covers_blank 0)

theorem frames_migrationObject (version : String) (statements : List String) :
    Frames (migrationObject version statements) r"{" := by
  have hstatements : Covers 0 0 (statements.map fun s => .line (string s ++ ",")) :=
    covers_map fun s _ => covers_line (Passes.append (passes_quoted 0 s) rfl)
  refine .block rfl ?_ rfl rfl
  exact covers_cons (covers_line (Passes.around rfl (passes_quoted 0 version) rfl))
    (covers_block rfl hstatements rfl)

/-- The list of migrations leads from code to code whatever the versions and the
statements are, since all of them are quoted. -/
theorem covers_migrationList (migrations : List (String × List String)) :
    Covers 0 0 (migrationList migrations) := by
  unfold migrationList
  split
  · exact covers_line rfl
  · exact covers_block rfl (covers_flatMap fun m _ => (frames_migrationObject m.1 m.2).covers) rfl

/-! ## Tables and handlers -/

/-- The tables are made in one block. -/
theorem frames_prepareTables {schemas : List Schema} (h : ∀ s ∈ schemas, Passes 0 0 s.name) :
    Frames (prepareTables schemas) r"export function prepareTables(db) {" := by
  refine .block rfl ?_ rfl rfl
  split
  · exact covers_line rfl
  · refine covers_block rfl (Covers.at (covers_map ?_) 1) rfl
    intro s hs
    have hname : Passes 0 0 (statementsName s.name) := (h s hs).append rfl
    exact covers_line (Passes.around (Passes.around (Passes.append (h s hs) rfl)
      (passes_quoted 0 s.name) rfl) hname rfl)

/-- The lines of a step lead from code to code if what the step names is a
word. -/
theorem covers_stepLines {s : Step} (h : s.WellNamed) : Covers 0 0 (stepLines s) := by
  cases s with
  | auth => exact covers_line rfl
  | validate schema =>
      have hname : Passes 0 0 (validatorName schema) := Passes.append rfl (IsWord.passes h 0)
      exact covers_line (Passes.around rfl hname rfl)
  | action name =>
      exact covers_cons (covers_line (Passes.around rfl (IsWord.passes h 0) rfl)) (covers_line rfl)

/-- A handler around code that leads from code to code does so itself, with its
path between quotes. -/
theorem covers_handler (v : Verb) (path : String) {code : List Piece} (h : Covers 0 0 code) :
    Covers 0 0 (handler v path code) := by
  refine covers_block rfl (Covers.at ?_ 1) rfl
  refine Covers.append ?_ (covers_block rfl (h.at 1) rfl)
  exact covers_cons (covers_line (Passes.around rfl (passes_quoted 0 _) rfl))
    (covers_line (Passes.around rfl (passes_quoted 0 path) rfl))

theorem covers_routeHandler {r : Route} (h : r.WellNamed) : Covers 0 0 (routeHandler r) := by
  have hsteps : Covers 0 0 (r.pipeline.flatMap stepLines) :=
    covers_flatMap fun s hs => covers_stepLines (h s hs)
  refine covers_handler r.verb r.path (Covers.append (Covers.append ?_ (hsteps.at 1)) ?_)
  · exact covers_cons (covers_line rfl) (covers_cons (covers_opening rfl) (covers_line rfl))
  · exact covers_cons (covers_line rfl) (covers_cons (covers_reopening rfl)
      (covers_cons (covers_line rfl) (covers_cons (covers_line rfl) (covers_closing rfl))))

/-- All handlers stand in one block, and the check of health before them unless
a route takes its place. -/
theorem frames_createHandlers {routes : List Route} (h : ∀ r ∈ routes, r.WellNamed) :
    Frames (createHandlers routes) r"export function createHandlers(db) {" := by
  have hhealth : Covers 0 0 (if routes.any isHealth then [] else healthHandler) := by
    split
    · exact covers_nil 0
    · exact covers_handler .get healthPath (covers_line rfl)
  have hroutes : Covers 0 0 (routes.flatMap routeHandler) :=
    covers_flatMap fun r hr => covers_routeHandler (h r hr)
  refine .block rfl ?_ rfl rfl
  exact covers_cons (covers_line rfl) (covers_block rfl (hhealth.append hroutes) rfl)

/-! ## Actions -/

theorem ne_newline_of_isDigit {cs : List Char} (h : ∀ c ∈ cs, c.isDigit = true) :
    ∀ b ∈ bytes (String.ofList cs), b ≠ '\n'.toUInt8 := by
  rintro b hb rfl
  rw [bytes_ofList] at hb
  obtain ⟨c, hc, hbc⟩ := List.mem_flatMap.mp hb
  have hdigit := h c hc
  rw [eq_of_mem_encode (by decide) hbc] at hdigit
  cases hdigit

theorem ne_newline_of_isWord {s : String} (h : IsWord s) : ∀ b ∈ bytes s, b ≠ '\n'.toUInt8 := by
  rintro b hb rfl
  have hword := h _ hb
  cases hword

theorem ne_newline_of_toString (n : Nat) : ∀ b ∈ bytes (toString n), b ≠ '\n'.toUInt8 :=
  ne_newline_of_isDigit fun _ => isDigit_of_mem_toDigits

/-- A comment lasts to the end of its line, so only a newline in it could do
harm. -/
theorem covers_lineNumber (n : Nat) : Covers 0 0 [.line s!"// line {n}"] := by
  have hcomment : s!"// line {n}" = "//" ++ (" line " ++ toString n) := by
    rw [← String.append_assoc]
    rfl
  rw [hcomment]
  refine covers_comment ?_ 0
  rw [bytes_append]
  exact List.forall_mem_append.mpr ⟨List.ne_of_all_bne rfl, ne_newline_of_toString n⟩

/-- The first line of an action opens one block. Its name and its parameters are
words and cannot open or close another. -/
theorem passes_actionHeader {a : Action} (h : a.WellNamed) :
    Passes 0 1 ("async function " ++ a.name ++ "(" ++ String.intercalate ", " a.params
      ++ r") {") := by
  have hparams : Passes 0 0 (String.intercalate ", " a.params) :=
    passes_intercalate rfl fun p hp => IsWord.passes (h.2 p hp) 0
  exact Passes.around (Passes.around rfl (IsWord.passes h.1 0) rfl) hparams rfl

/-- An action leads from code to code if its body does. -/
theorem covers_actionCode {a : Action} (h : a.WellNamed) (hbody : Passes 0 0 (ended a.body)) :
    Covers 0 0 (actionCode a) :=
  covers_cons (covers_lineNumber a.line) (covers_cons (covers_line (passes_actionHeader h))
    (covers_cons (covers_verbatim (hbody.frame 1)) (covers_line rfl)))

theorem covers_actionSection {actions : List Action}
    (h : ∀ a ∈ actions, a.WellNamed ∧ Passes 0 0 (ended a.body)) :
    Covers 0 0 (actionSection actions) := by
  unfold actionSection
  split
  · exact covers_nil 0
  · have htitle : Covers 0 0 [.line ("//" ++ " ── Actions ──")] :=
      covers_comment (List.ne_of_all_bne rfl) 0
    refine Covers.append (covers_cons (covers_blank 0) htitle) (covers_flatMap ?_)
    intro a ha
    exact covers_cons (covers_blank 0) (covers_actionCode (h a ha).1 (h a ha).2)

theorem covers_title {name : String} (h : IsWord name) :
    Covers 0 0 [.line ("// ── " ++ name ++ " ──")] := by
  have hcomment : "// ── " ++ name ++ " ──" = "//" ++ (" ── " ++ name ++ " ──") := by
    rw [← String.append_assoc, ← String.append_assoc]
    rfl
  rw [hcomment]
  refine covers_comment ?_ 0
  rw [bytes_append, bytes_append, List.forall_mem_append, List.forall_mem_append]
  exact ⟨⟨List.ne_of_all_bne rfl, ne_newline_of_isWord h⟩, List.ne_of_all_bne rfl⟩

/-- All the code for one schema, whatever its checks are. -/
theorem covers_schemaSection (options : EmitOptions) {s : Schema} (h : IsWord s.name)
    (checks : List Check) : Covers 0 0 (schemaSection options s checks) := by
  have hname := h.passes 0
  refine Covers.append (Covers.append (Covers.append ?_ (frames_validator hname checks).covers)
    (covers_blank 0)) (covers_queries options.dialect hname)
  exact covers_cons (covers_blank 0) (covers_cons (covers_title h) (covers_blank 0))

/-! ## Levels -/

theorem level_presentLines (c : Check) : Level (presentLines c) := by
  have hguards : Level (c.guards.map (guardLine c.field)) := by
    rw [List.map_eq_flatMap]
    exact level_flatMap fun _ _ _ => rfl
  unfold presentLines
  split
  all_goals exact fun depth => by simp [hguards depth, storeLine, Piece.depthAfter]

theorem level_checkCode (c : Check) : Level (checkCode c) := by
  refine level_block fun depth => ?_
  rw [List.foldl_append, List.foldl_append, level_presentLines]
  unfold absentLine
  split <;> rfl

/-- A validator leaves as many blocks open as were open before it. -/
theorem level_validator (schema : String) (checks : List Check) :
    Level (validator schema checks) := by
  have hchecks : Level (checks.flatMap checkCode) := level_flatMap fun c _ => level_checkCode c
  have hobject : Level objectCode := fun _ => rfl
  refine level_block (Level.append (Level.append (hobject.append ?_) hchecks) ?_)
  · exact fun _ => rfl
  · exact fun _ => rfl

/-- The parts of a section stand at the same depth, since each of them closes
what it opens. -/
theorem level_schemaSection (options : EmitOptions) (s : Schema) (checks : List Check) :
    Level (schemaSection options s checks) := by
  have hqueries : Level (queries options.dialect s) := fun _ => rfl
  refine Level.append (Level.append (Level.append ?_ (level_validator s.name checks)) ?_) hqueries
  · exact fun _ => rfl
  · exact fun _ => rfl

theorem level_actionCode (a : Action) : Level (actionCode a) := fun _ => rfl

theorem level_actionSection (actions : List Action) : Level (actionSection actions) := by
  unfold actionSection
  split
  · exact fun _ => rfl
  · exact Level.append (fun _ => rfl) (level_flatMap fun _ _ _ => rfl)

theorem level_migrationObject (version : String) (statements : List String) :
    Level (migrationObject version statements) := by
  have hversion : Level [.line ("version: " ++ string version ++ ",")] := fun _ => rfl
  have hstatements : Level (block "statements: [" (statements.map fun s => .line (string s ++ ","))
      "],") := level_block (level_lines statements _)
  exact level_block (hversion.append hstatements)

theorem level_migrationList (migrations : List (String × List String)) :
    Level (migrationList migrations) := by
  unfold migrationList
  split
  · exact fun _ => rfl
  · exact level_block (level_flatMap fun m _ => level_migrationObject m.1 m.2)

theorem level_prepareTables (schemas : List Schema) : Level (prepareTables schemas) := by
  refine level_block ?_
  split
  · exact fun _ => rfl
  · exact level_block (level_lines schemas _)

theorem level_handler (v : Verb) (path : String) {code : List Piece} (h : Level code) :
    Level (handler v path code) :=
  level_block (Level.append (fun _ => rfl) (level_block h))

theorem level_routeHandler (r : Route) : Level (routeHandler r) := by
  have hsteps : Level (r.pipeline.flatMap stepLines) := by
    refine level_flatMap fun s _ => ?_
    cases s with
    | auth | validate | action => exact fun _ => rfl
  refine level_handler r.verb r.path fun depth => ?_
  rw [List.foldl_append, List.foldl_append, hsteps]
  rfl

/-- The handlers of all routes end at the depth at which they begin. -/
theorem level_createHandlers (routes : List Route) : Level (createHandlers routes) := by
  have hhealth : Level (if routes.any isHealth then [] else healthHandler) := by
    split <;> exact fun _ => rfl
  have hfirst : Level [.line "const tables = prepareTables(db);"] := fun _ => rfl
  exact level_block (hfirst.append (level_block
    (hhealth.append (level_flatMap fun r _ => level_routeHandler r))))

/-! ## The module -/

theorem covers_importLine (options : EmitOptions) : Covers 0 0 [importLine options] :=
  covers_line (Passes.around rfl (passes_quoted 0 _) rfl)

/-- The code of a module is its lines at the head, the sections of its schemas,
and the rest. -/
theorem exists_sections {options : EmitOptions} {t : Tree} {ps : List Piece}
    (h : pieces options t = .ok ps) :
    ∃ sections : List (List Piece), ∃ migrations : List (String × List String),
      (∀ code ∈ sections, ∃ s ∈ t.schemas, ∃ checks, code = schemaSection options s checks) ∧
      ps = [.line header, importLine options] ++ sections.flatten ++ actionSection t.actions
        ++ [.blank] ++ migrationList migrations ++ [.blank] ++ prepareTables t.schemas
        ++ [.blank] ++ createHandlers t.routes := by
  simp only [pieces, Except.bind_eq_ok_iff] at h
  obtain ⟨sections, hsections, migrations, -, h⟩ := h
  refine ⟨sections, migrations, ?_, (Except.ok.inj h).symm⟩
  intro code hcode
  obtain ⟨s, hs, hsection⟩ := List.exists_of_mem_mapM hsections hcode
  obtain ⟨checks, -, hsection⟩ := Except.bind_eq_ok_iff.mp hsection
  exact ⟨s, hs, checks, (Except.ok.inj hsection).symm⟩

/-- The whole module leads from code to code. It takes names that are words, and
bodies of actions that do so with their last line ended. -/
theorem covers_pieces {options : EmitOptions} {t : Tree} {ps : List Piece}
    (h : pieces options t = .ok ps) (hnamed : t.WellNamed)
    (hbodies : ∀ a ∈ t.actions, Passes 0 0 (ended a.body)) : Covers 0 0 ps := by
  obtain ⟨sections, migrations, hsections, rfl⟩ := exists_sections h
  have hheader : Covers 0 0 [.line ("//" ++ " Generated by blocksmith. Do not edit.")] :=
    covers_comment (List.ne_of_all_bne rfl) 0
  have hschemas : Covers 0 0 sections.flatten := by
    rw [← List.flatMap_id]
    refine covers_flatMap ?_
    intro code hcode
    obtain ⟨s, hs, checks, rfl⟩ := hsections code hcode
    exact covers_schemaSection options (hnamed.schemas s hs).1 checks
  have hactions : Covers 0 0 (actionSection t.actions) :=
    covers_actionSection fun a ha => ⟨hnamed.actions a ha, hbodies a ha⟩
  have htables : Covers 0 0 (prepareTables t.schemas) :=
    (frames_prepareTables fun s hs => (hnamed.schemas s hs).1.passes 0).covers
  have hroutes : Covers 0 0 (createHandlers t.routes) :=
    (frames_createHandlers hnamed.routes).covers
  have hblank := covers_blank 0
  exact Covers.append (Covers.append (Covers.append (Covers.append (Covers.append (Covers.append
    (Covers.append (Covers.append (covers_cons hheader (covers_importLine options)) hschemas)
      hactions) hblank) (covers_migrationList migrations)) hblank) htables) hblank) hroutes

end Server

end BlockLang
