import BlockLang.Proofs.ModuleText

/-! # When code is generated

The checks before and during the generation of code look for violations part by part and stop at
the first. So a tree is turned into code if and only if it has no violation, and all that the code
then names is declared in it.
-/

namespace BlockLang

/-! ## Computations that stop at the first error -/

section Reports

variable {ε α β : Type} {x : Except ε α} {errors later : List ε}

/-- Whether a computation ends well if there are no errors, and else stops with
the first. -/
inductive Reports : Except ε α → List ε → Prop where
  | done (a : α) : Reports (.ok a) []
  | stopped (e : ε) (later : List ε) : Reports (.error e) (e :: later)

/-- A computation that reports a list of errors fails with the first of them and
with no other. -/
theorem Reports.error_iff (h : Reports x errors) (e : ε) :
    x = .error e ↔ errors.head? = some e := by
  cases h with
  | done a => simp
  | stopped e' later => simp

theorem Reports.ok_iff (h : Reports x errors) : (∃ a, x = .ok a) ↔ errors = [] := by
  cases h with
  | done a => simp
  | stopped e later => simp

/-- Errors are reported in the order of the computation: those of the second
part count only where the first part has none. -/
theorem Reports.bind {f : α → Except ε β} (h : Reports x errors)
    (hf : ∀ a, x = .ok a → Reports (f a) later) : Reports (x >>= f) (errors ++ later) := by
  cases h with
  | done a => exact hf a rfl
  | stopped e rest => exact .stopped e (rest ++ later)

theorem Reports.map (h : Reports x errors) (f : α → β) :
    Reports (x >>= fun a => .ok (f a)) errors := by
  rw [← List.append_nil errors]
  exact h.bind fun a _ => .done (f a)

theorem reports_guard (c : Prop) [Decidable c] (a : α) (e : ε) :
    Reports (if c then .ok a else .error e) (if c then [] else [e]) := by
  split
  · exact .done a
  · exact .stopped e []

theorem reports_forM {as : List α} {f : α → Except ε Unit} {errors : α → List ε}
    (h : ∀ a ∈ as, Reports (f a) (errors a)) : Reports (as.forM f) (as.flatMap errors) := by
  induction as with
  | nil => exact .done ()
  | cons a rest ih =>
      obtain ⟨ha, hrest⟩ := List.forall_mem_cons.mp h
      rw [List.flatMap_cons]
      exact ha.bind fun _ _ => ih hrest

theorem reports_mapM {as : List α} {f : α → Except ε β} {errors : α → List ε}
    (h : ∀ a ∈ as, Reports (f a) (errors a)) : Reports (as.mapM f) (as.flatMap errors) := by
  induction as with
  | nil => exact .done []
  | cons a rest ih =>
      obtain ⟨ha, hrest⟩ := List.forall_mem_cons.mp h
      rw [List.mapM_cons, List.flatMap_cons]
      exact ha.bind fun b _ => (ih hrest).map (b :: ·)

end Reports

/-! ## Violations -/

def Step.violations (t : Tree) (r : Route) : Step → List EmitError
  | .auth => []
  | .validate schema =>
    if schema ∈ t.schemas.map Schema.name then [] else [.unknownSchema r.verb r.path schema]
  | .action name =>
    if name ∈ t.actions.map Action.name then [] else [.unknownAction r.verb r.path name]

/-- What is wrong with a route: first its steps, then the lack of an action. -/
def Route.violations (t : Tree) (r : Route) : List EmitError :=
  r.pipeline.flatMap (Step.violations t r)
    ++ if r.actions = [] then [.emptyPipeline r.verb r.path] else []

/-- What is wrong with parameters that stand behind others. -/
def paramFaults (before : List String) : List String → List NameFault
  | [] => []
  | p :: rest =>
    (if Code.isReserved p then [.reservedParameter p] else [])
      ++ (if p ∈ before then [.repeatedParameter p] else []) ++ paramFaults (before ++ [p]) rest

/-- What is wrong with the names of an action: first with its own, then with its
parameters. -/
def Action.faults (t : Tree) (a : Action) : List NameFault :=
  (if Code.isReserved a.name then [.reserved a.name] else [])
    ++ (if a.name ∈ Server.takenNames t then [.clash a.name] else []) ++ paramFaults [] a.params

def Action.violations (t : Tree) (a : Action) : List EmitError :=
  (a.faults t).map (.invalidActionName a.name a.line)

def Schema.violations (s : Schema) : List EmitError :=
  match s.checks with
  | .error e => [e]
  | .ok _ => []

def Operation.violations (t : Tree) (version : String) : Operation → List EmitError
  | .createTable table =>
    if table ∈ t.schemas.map Schema.name then [] else [.unknownTable version table]
  | .addColumn .. | .dropColumn .. | .dropTable _ => []

/-- What is wrong with a tree: the routes, the actions, the schemas and the
migrations in this order. -/
def Tree.violations (t : Tree) : List EmitError :=
  t.routes.flatMap (Route.violations t) ++ t.actions.flatMap (Action.violations t)
    ++ t.schemas.flatMap Schema.violations
    ++ t.migrations.flatMap fun m => m.operations.flatMap (Operation.violations t m.version)

variable {t : Tree}

theorem Tree.isSome_schema? {name : String} :
    (t.schema? name).isSome = true ↔ name ∈ t.schemas.map Schema.name := by
  simp [schema?]

theorem Tree.isSome_action? {name : String} :
    (t.action? name).isSome = true ↔ name ∈ t.actions.map Action.name := by
  simp [action?]

namespace Route

/-- A step is refused if it names a schema or an action that the tree does not
have. -/
theorem reports_checkStep (t : Tree) (r : Route) (s : Step) :
    Reports (r.checkStep t s) (s.violations t r) := by
  cases s with
  | auth => exact .done ()
  | validate schema =>
      simp only [checkStep, Step.violations, Tree.isSome_schema?]
      exact reports_guard _ () _
  | action name =>
      simp only [checkStep, Step.violations, Tree.isSome_action?]
      exact reports_guard _ () _

/-- The steps of a route are looked at first, so the lack of an action is
reported only where all of them are known. -/
theorem reports_checkSteps (t : Tree) (r : Route) :
    Reports (r.checkSteps t) (r.violations t) := by
  refine (reports_forM fun s _ => r.reports_checkStep t s).bind fun _ _ => ?_
  simp only [List.isEmpty_iff]
  split
  · exact .stopped _ []
  · exact .done ()

end Route

namespace Action

/-- The first fault that is found is the first of all. -/
theorem paramFault?_eq {before names params : List String} (h : ∀ p, p ∈ before ↔ p ∈ names) :
    paramFault? before params = (paramFaults names params).head? := by
  induction params generalizing before names with
  | nil => rfl
  | cons p rest ih =>
      have hnames : ∀ q, q ∈ p :: before ↔ q ∈ names ++ [p] := by
        intro q
        rw [List.mem_cons, List.mem_append, List.mem_singleton, h, or_comm]
      rw [paramFault?, paramFaults, ih hnames]
      by_cases hreserved : Code.isReserved p = true
      · simp [hreserved]
      · by_cases hmem : p ∈ names
        · simp [hreserved, hmem, (h p).mpr hmem]
        · simp [hreserved, hmem, mt (h p).mp hmem]

theorem fault?_eq (t : Tree) (a : Action) :
    a.fault? (Server.takenNames t) = (a.faults t).head? := by
  rw [fault?, faults, paramFault?_eq fun _ => Iff.rfl]
  by_cases hreserved : Code.isReserved a.name = true
  · simp [hreserved]
  · by_cases hmem : a.name ∈ Server.takenNames t
    · simp [hreserved, hmem]
    · simp [hreserved, hmem]

theorem reports_checkNames (t : Tree) (a : Action) :
    Reports (a.checkNames (Server.takenNames t)) (a.violations t) := by
  rw [checkNames, fault?_eq, violations]
  cases a.faults t with
  | nil => exact .done ()
  | cons fault later => exact .stopped _ _

end Action

theorem Schema.reports_checks (s : Schema) : Reports s.checks s.violations := by
  unfold violations
  cases s.checks with
  | error e => exact .stopped e []
  | ok checks => exact .done checks

theorem Migration.reports_statements (d : Dialect) (t : Tree) (m : Migration) :
    Reports (m.statements d t) (m.operations.flatMap (Operation.violations t m.version)) := by
  refine reports_mapM fun op _ => ?_
  cases op with
  | addColumn | dropColumn | dropTable => exact .done _
  | createTable table =>
      simp only [Operation.statement, Operation.violations, ← Tree.isSome_schema?]
      cases t.schema? table with
      | none => exact .stopped _ []
      | some schema => exact .done _

namespace Tree

theorem reports_checkNames (t : Tree) :
    Reports t.checkNames
      (t.routes.flatMap (Route.violations t) ++ t.actions.flatMap (Action.violations t)) :=
  (reports_forM fun r _ => r.reports_checkSteps t).bind fun _ _ =>
    reports_forM fun a _ => a.reports_checkNames t

/-- The pieces of a module fail for a schema without checks or a table that no
schema describes, whatever the dialect is. -/
theorem reports_pieces (options : EmitOptions) (t : Tree) :
    Reports (Server.pieces options t) (t.schemas.flatMap Schema.violations
      ++ t.migrations.flatMap fun m => m.operations.flatMap (Operation.violations t m.version)) :=
  (reports_mapM fun s _ => s.reports_checks.map _).bind fun _ _ =>
    (reports_mapM fun m _ => (m.reports_statements options.dialect t).map _).map _

/-- Code is generated from a tree without violations; else the error is the
first of them. -/
theorem reports_emit (options : EmitOptions) (t : Tree) :
    Reports (t.emit options) t.violations := by
  rw [violations, List.append_assoc]
  exact t.reports_checkNames.bind fun _ _ => ((t.reports_pieces options).map _).map _

end Tree

/-! ## Trees without violations -/

/-- Whether all that a route names is in the tree, and it names an action. -/
structure Route.Resolved (t : Tree) (r : Route) : Prop where
  schemas : ∀ name, .validate name ∈ r.pipeline → ∃ s ∈ t.schemas, s.name = name
  actions : ∀ name, .action name ∈ r.pipeline → ∃ a ∈ t.actions, a.name = name
  runs : ∃ name, .action name ∈ r.pipeline

structure Action.Declarable (t : Tree) (a : Action) : Prop where
  name : Code.isReserved a.name = false
  free : a.name ∉ Server.takenNames t
  params : ∀ p ∈ a.params, Code.isReserved p = false
  distinct : a.params.Nodup

structure Tree.Emittable (t : Tree) : Prop where
  routes : ∀ r ∈ t.routes, r.Resolved t
  actions : ∀ a ∈ t.actions, a.Declarable t
  schemas : ∀ s ∈ t.schemas, ∃ checks, s.checks = .ok checks
  migrations : ∀ m ∈ t.migrations, ∀ table, .createTable table ∈ m.operations →
    ∃ s ∈ t.schemas, s.name = table

theorem Step.violations_eq_nil_iff {r : Route} {step : Step} : step.violations t r = [] ↔
      (∀ name, step = .validate name → ∃ s ∈ t.schemas, s.name = name) ∧
      ∀ name, step = .action name → ∃ a ∈ t.actions, a.name = name := by
  cases step with
  | auth => simp [violations]
  | validate schema => simp [violations]
  | action name => simp [violations]

theorem Route.actions_eq_nil_iff {r : Route} :
    r.actions = [] ↔ ¬ ∃ name, .action name ∈ r.pipeline := by
  rw [actions, List.filterMap_eq_nil_iff, not_exists]
  constructor
  · intro h name hname
    cases h _ hname
  · intro h step hstep
    cases step with
    | auth | validate => rfl
    | action name => exact absurd hstep (h name)

/-- A route without violations is one whose names are all in the tree. -/
theorem Route.violations_eq_nil_iff {r : Route} : r.violations t = [] ↔ r.Resolved t := by
  have hlack : (if r.actions = [] then [EmitError.emptyPipeline r.verb r.path] else []) = [] ↔
      ∃ name, .action name ∈ r.pipeline := by
    rw [ite_eq_right_iff, actions_eq_nil_iff]
    simp
  rw [violations, List.append_eq_nil_iff, List.flatMap_eq_nil_iff, hlack]
  simp only [Step.violations_eq_nil_iff]
  constructor
  · rintro ⟨hsteps, hruns⟩
    exact ⟨fun name hname => (hsteps _ hname).1 name rfl,
      fun name hname => (hsteps _ hname).2 name rfl, hruns⟩
  · rintro ⟨hschemas, hactions, hruns⟩
    refine ⟨fun step hstep => ⟨?_, ?_⟩, hruns⟩
    · rintro name rfl
      exact hschemas name hstep
    · rintro name rfl
      exact hactions name hstep

/-- Parameters without faults are free, stand nowhere before and are all
different. -/
theorem Action.paramFaults_eq_nil_iff {before params : List String} :
    paramFaults before params = [] ↔
      (∀ p ∈ params, Code.isReserved p = false ∧ p ∉ before) ∧ params.Nodup := by
  induction params generalizing before with
  | nil => simp [paramFaults]
  | cons p rest ih =>
      simp only [paramFaults, List.append_eq_nil_iff, ite_eq_right_iff, ih, List.forall_mem_cons,
        List.nodup_cons, List.mem_append, List.mem_singleton, not_or, List.cons_ne_nil, imp_false,
        Bool.not_eq_true]
      constructor
      · rintro ⟨⟨hreserved, hnew⟩, hrest, hdistinct⟩
        exact ⟨⟨⟨hreserved, hnew⟩, fun q hq => ⟨(hrest q hq).1, (hrest q hq).2.1⟩⟩,
          fun hp => (hrest p hp).2.2 rfl, hdistinct⟩
      · rintro ⟨⟨⟨hreserved, hnew⟩, hrest⟩, hp, hdistinct⟩
        refine ⟨⟨hreserved, hnew⟩, fun q hq => ⟨(hrest q hq).1, (hrest q hq).2, ?_⟩, hdistinct⟩
        rintro rfl
        exact hp hq

theorem Action.violations_eq_nil_iff {a : Action} : a.violations t = [] ↔ a.Declarable t := by
  simp only [violations, faults, List.map_eq_nil_iff, List.append_eq_nil_iff, ite_eq_right_iff,
    paramFaults_eq_nil_iff, List.cons_ne_nil, imp_false, Bool.not_eq_true, List.not_mem_nil,
    not_false_eq_true, and_true]
  constructor
  · rintro ⟨⟨hname, hfree⟩, hparams, hdistinct⟩
    exact ⟨hname, hfree, hparams, hdistinct⟩
  · rintro ⟨hname, hfree, hparams, hdistinct⟩
    exact ⟨⟨hname, hfree⟩, hparams, hdistinct⟩

theorem Schema.violations_eq_nil_iff {s : Schema} :
    s.violations = [] ↔ ∃ checks, s.checks = .ok checks := s.reports_checks.ok_iff.symm

theorem Operation.violations_eq_nil_iff {version : String} {op : Operation} :
    op.violations t version = [] ↔
      ∀ table, op = .createTable table → ∃ s ∈ t.schemas, s.name = table := by
  cases op with
  | addColumn | dropColumn | dropTable => simp [violations]
  | createTable table => simp [violations]

/-- A tree without violations is one that code can be generated from, part by
part. -/
theorem Tree.violations_eq_nil_iff : t.violations = [] ↔ t.Emittable := by
  simp only [violations, List.append_eq_nil_iff, List.flatMap_eq_nil_iff,
    Route.violations_eq_nil_iff, Action.violations_eq_nil_iff, Schema.violations_eq_nil_iff,
    Operation.violations_eq_nil_iff]
  constructor
  · rintro ⟨⟨⟨hroutes, hactions⟩, hschemas⟩, hmigrations⟩
    exact ⟨hroutes, hactions, hschemas, fun m hm table hop => hmigrations m hm _ hop table rfl⟩
  · rintro ⟨hroutes, hactions, hschemas, hmigrations⟩
    refine ⟨⟨⟨hroutes, hactions⟩, hschemas⟩, fun m hm op hop table heq => ?_⟩
    exact hmigrations m hm table (heq ▸ hop)

/-! ## Lines of generated code -/

namespace Code

def WholeLines (text : String) : Prop := text = "" ∨ ∃ front, text = front ++ "\n"

/-- Whether a text has a line: a part that begins where a line does and has a
newline behind it. -/
def HasLine (text line : String) : Prop :=
  ∃ before after, WholeLines before ∧ text = before ++ line ++ "\n" ++ after

variable {text line : String} {ps front back : List Piece}

theorem WholeLines.append {first second : String} (hfirst : WholeLines first)
    (hsecond : WholeLines second) : WholeLines (first ++ second) := by
  rcases hsecond with rfl | ⟨front, rfl⟩
  · rwa [String.append_empty]
  · exact .inr ⟨first ++ front, (String.append_assoc ..).symm⟩

/-- Each piece of code is laid out as whole lines, a text that is copied as it
is among them. -/
theorem wholeLines_piece (p : Piece) (depth : Nat) : WholeLines (p.render depth) := by
  have hline (depth : Nat) (text : String) : WholeLines (lineAt depth text) := by
    unfold lineAt
    split
    · exact .inr ⟨"", rfl⟩
    · exact .inr ⟨_, rfl⟩
  cases p with
  | line text | opening text | closing text | reopening text => exact hline _ text
  | blank => exact .inr ⟨"", rfl⟩
  | verbatim text =>
      change WholeLines (ended text)
      unfold ended
      split
      next hended =>
        rcases Bool.or_eq_true_iff.mp hended with hempty | hlast
        · exact .inl (String.isEmpty_iff.mp hempty)
        · obtain ⟨front, hfront⟩ := List.getLast?_eq_some_iff.mp (beq_iff_eq.mp hlast)
          refine .inr ⟨String.ofList front, ?_⟩
          rw [← String.toList_inj, hfront, String.toList_append, String.toList_ofList]
          rfl
      next => exact .inr ⟨text, rfl⟩

theorem wholeLines_renderFrom (depth : Nat) (ps : List Piece) :
    WholeLines (String.join (renderFrom depth ps)) := by
  induction ps generalizing depth with
  | nil => exact .inl rfl
  | cons p rest ih =>
      rw [renderFrom, String.join_cons]
      exact (wholeLines_piece p depth).append (ih _)

/-- A line of a text is a line of any longer text, as long as what stands before
it is made of whole lines. -/
theorem HasLine.within {first last : String} (hfirst : WholeLines first) (h : HasLine text line) :
    HasLine (first ++ text ++ last) line := by
  obtain ⟨before, after, hbefore, rfl⟩ := h
  exact ⟨first ++ before, after ++ last, hfirst.append hbefore, by simp only [String.append_assoc]⟩

theorem HasLine.render_left (hps : Level ps) (h : HasLine (render ps) line) :
    HasLine (render (ps ++ back)) line := by
  rw [render_append hps, ← String.empty_append (s := render ps)]
  exact h.within (.inl rfl)

theorem HasLine.render_right (hfront : Level front) (h : HasLine (render ps) line) :
    HasLine (render (front ++ ps)) line := by
  rw [render_append hfront, ← String.append_empty (s := render front ++ render ps)]
  exact h.within (wholeLines_renderFrom 0 front)

theorem hasLine_block (before behind : String) (ps : List Piece) :
    HasLine (render (block before ps behind)) before := by
  refine ⟨"", String.join (renderFrom 1 (ps ++ [.closing behind])), .inl rfl, ?_⟩
  rw [render, block, List.cons_append, renderFrom, String.join_cons, Piece.render,
    Server.lineAt_zero, String.empty_append]
  rfl

end Code

namespace Server

open Code Text

/-- The code of a module has the sections of the schemas in their order. -/
theorem exists_pieces_eq {options : EmitOptions} {t : Tree} {ps : List Piece}
    (h : pieces options t = .ok ps) :
    ∃ (checks : Schema → List Check) (migrations : List (String × List String)),
      ps = [Piece.line header, importLine options]
        ++ t.schemas.flatMap (fun s => schemaSection options s (checks s))
        ++ actionSection t.actions ++ [Piece.blank] ++ migrationList migrations ++ [Piece.blank]
        ++ prepareTables t.schemas ++ [Piece.blank] ++ createHandlers t.routes := by
  simp only [pieces, Except.bind_eq_ok_iff] at h
  obtain ⟨sections, hsections, migrations, -, h⟩ := h
  refine ⟨fun s => s.checks.toOption.getD [], migrations, ?_⟩
  rw [List.flatMap_def, ← List.eq_map_of_mapM hsections]
  · exact (Except.ok.inj h).symm
  · intro s code hcode
    obtain ⟨checks, hchecks, hcode⟩ := Except.bind_eq_ok_iff.mp hcode
    simp only [hchecks]
    exact (Except.ok.inj hcode).symm

/-- Every schema has its section in a module, and no block is open around it. -/
theorem exists_schemaSection {options : EmitOptions} {t : Tree} {ps : List Piece}
    (h : pieces options t = .ok ps) {s : Schema} (hs : s ∈ t.schemas) :
    ∃ front checks back, Level front ∧ ps = front ++ schemaSection options s checks ++ back := by
  obtain ⟨checks, migrations, rfl⟩ := exists_pieces_eq h
  obtain ⟨ss₁, ss₂, hschemas⟩ := List.append_of_mem hs
  have hhead : Level [Piece.line header, importLine options] := fun _ => rfl
  refine ⟨[Piece.line header, importLine options]
      ++ ss₁.flatMap fun s => schemaSection options s (checks s), checks s,
    (ss₂.flatMap fun s => schemaSection options s (checks s)) ++ actionSection t.actions
      ++ [Piece.blank] ++ migrationList migrations ++ [Piece.blank] ++ prepareTables t.schemas
      ++ [Piece.blank] ++ createHandlers t.routes,
    hhead.append (level_flatMap fun s _ => level_schemaSection options s (checks s)), ?_⟩
  simp only [hschemas, List.flatMap_append, List.flatMap_cons, List.append_assoc]

theorem level_upper (s : Schema) (checks : List Check) :
    Level ([Piece.blank, Piece.line ("// ── " ++ s.name ++ " ──"), Piece.blank]
      ++ validator s.name checks) :=
  Level.append (fun _ => rfl) (level_validator s.name checks)

/-- The module has the line that declares the validator of each schema. -/
theorem hasLine_validator {options : EmitOptions} {t : Tree} {ps : List Piece}
    (h : pieces options t = .ok ps) {s : Schema} (hs : s ∈ t.schemas) :
    HasLine (render ps) ("export function " ++ validatorName s.name ++ r"(input) {") := by
  obtain ⟨front, checks, back, hfront, rfl⟩ := exists_schemaSection h hs
  have hblank : Level [Piece.blank] := fun _ => rfl
  refine HasLine.render_left (hfront.append (level_schemaSection options s checks))
    (HasLine.render_right hfront ?_)
  refine HasLine.render_left ((level_upper s checks).append hblank)
    (HasLine.render_left (level_upper s checks) (HasLine.render_right ?_ (hasLine_block ..)))
  exact fun _ => rfl

theorem hasLine_statements {options : EmitOptions} {t : Tree} {ps : List Piece}
    (h : pieces options t = .ok ps) {s : Schema} (hs : s ∈ t.schemas) :
    HasLine (render ps) ("export const " ++ statementsName s.name ++ r" = Object.freeze({") := by
  obtain ⟨front, checks, back, hfront, rfl⟩ := exists_schemaSection h hs
  have hblank : Level [Piece.blank] := fun _ => rfl
  have hobject : HasLine (render (queries options.dialect s))
      ("export const " ++ statementsName s.name ++ r" = Object.freeze({") := by
    refine HasLine.render_left ?_ (HasLine.render_left ?_ (HasLine.render_right ?_
      (hasLine_block ..)))
    all_goals exact fun _ => rfl
  exact HasLine.render_left (hfront.append (level_schemaSection options s checks))
    (HasLine.render_right hfront
      (HasLine.render_right ((level_upper s checks).append hblank) hobject))

theorem hasLine_action {options : EmitOptions} {t : Tree} {m : String}
    (h : t.server options = .ok m) {a : Action} (ha : a ∈ t.actions) :
    HasLine m ("async function " ++ a.name ++ "(" ++ String.intercalate ", " a.params
      ++ r") {") := by
  obtain ⟨as₁, as₂, hactions⟩ := List.append_of_mem ha
  obtain ⟨front, behind, -, rfl⟩ := exists_server_eq h hactions
  refine HasLine.within (wholeLines_renderFrom 0 _) ?_
  have hhead : actionHead a = "// line " ++ toString a.line ++ "\n" ++ "async function " ++ a.name
      ++ "(" ++ String.intercalate ", " a.params ++ ") " := rfl
  have hopening : r") {" = ") " ++ r"{" := rfl
  refine ⟨"// line " ++ toString a.line ++ "\n", ended a.body ++ r"}" ++ "\n", .inr ⟨_, rfl⟩, ?_⟩
  rw [render_actionCode, hhead, actionInside, hopening]
  simp only [String.append_assoc]

/-- The tables and the handlers stand at the end of a module, with an empty line
between them. -/
theorem exists_render_eq {options : EmitOptions} {t : Tree} {ps : List Piece}
    (h : pieces options t = .ok ps) :
    ∃ front, render ps =
      front ++ render (prepareTables t.schemas) ++ "\n" ++ render (createHandlers t.routes) := by
  obtain ⟨checks, migrations, rfl⟩ := exists_pieces_eq h
  have hhead : Level [.line header, importLine options] := fun _ => rfl
  have hblank : Level [.blank] := fun _ => rfl
  have hfront := (((hhead.append (level_flatMap fun s (_ : s ∈ t.schemas) =>
    level_schemaSection options s (checks s))).append (level_actionSection t.actions)).append
      hblank).append (level_migrationList migrations) |>.append hblank
  have htables := hfront.append (level_prepareTables t.schemas)
  rw [render_append (htables.append hblank), render_append htables, render_append hfront]
  exact ⟨_, rfl⟩

def leads (c : Char) : Piece → Bool
  | .line text => text.toList.head? == some c
  | _ => false

/-- Only the lines of steps assign to the data of a request. -/
theorem filter_createHandlers (routes : List Route) :
    (createHandlers routes).filter (leads 'd') =
      routes.flatMap fun r => r.pipeline.flatMap fun s => (stepLines s).filter (leads 'd') := by
  have hhandler (verb : Verb) (path : String) (code : List Piece) :
      (handler verb path code).filter (leads 'd') = code.filter (leads 'd') := by
    simp [handler, block, leads, List.filter_append]
  have hroute (r : Route) : (routeHandler r).filter (leads 'd') =
      r.pipeline.flatMap fun s => (stepLines s).filter (leads 'd') := by
    simp [routeHandler, hhandler, leads, List.filter_append, List.filter_flatMap]
  have hhealth : (if routes.any isHealth then [] else healthHandler).filter (leads 'd') = [] := by
    split
    · rfl
    · simp [healthHandler, hhandler, leads]
  simp only [createHandlers, block, List.filter_append, List.filter_cons, List.filter_flatMap,
    hroute, hhealth]
  simp [leads]

theorem exists_step_of_mem {routes : List Route} {text : String}
    (h : .line text ∈ createHandlers routes) (hlead : text.toList.head? = some 'd') :
    ∃ r ∈ routes, ∃ step ∈ r.pipeline, .line text ∈ stepLines step := by
  have hmem : .line text ∈ (createHandlers routes).filter (leads 'd') :=
    List.mem_filter.mpr ⟨h, by simp [leads, hlead]⟩
  rw [filter_createHandlers] at hmem
  obtain ⟨r, hr, hmem⟩ := List.mem_flatMap.mp hmem
  obtain ⟨step, hstep, hmem⟩ := List.mem_flatMap.mp hmem
  exact ⟨r, hr, step, hstep, (List.mem_filter.mp hmem).1⟩

def ending : Piece → List Char
  | .line text => text.toList.reverse.take 3
  | _ => []

/-- A handler line that calls a validator is that of a step of a route. -/
theorem exists_validate_of_mem {routes : List Route} {f : String}
    (h : .line ("data = " ++ f ++ "(data);") ∈ createHandlers routes) :
    ∃ r ∈ routes, ∃ schema, .validate schema ∈ r.pipeline ∧ f = validatorName schema := by
  obtain ⟨r, hr, step, hstep, hmem⟩ := exists_step_of_mem h (by simp)
  cases step with
  | auth => simp [stepLines, ← String.toList_inj] at hmem
  | validate schema =>
      refine ⟨r, hr, schema, hstep, ?_⟩
      simpa [stepLines, ← String.toList_inj] using hmem
  | action name =>
      have hend := List.mem_map_of_mem (f := ending) hmem
      simp [stepLines, ending] at hend

theorem exists_action_of_mem {routes : List Route} {f : String}
    (h : .line ("data = await " ++ f ++ "(data, ctx);") ∈ createHandlers routes) :
    ∃ r ∈ routes, .action f ∈ r.pipeline := by
  obtain ⟨r, hr, step, hstep, hmem⟩ := exists_step_of_mem h (by simp)
  cases step with
  | auth => simp [stepLines, ← String.toList_inj] at hmem
  | validate schema =>
      have hend := List.mem_map_of_mem (f := ending) hmem
      simp [stepLines, ending] at hend
  | action name =>
      have heq : f = name := by simpa [stepLines, ← String.toList_inj] using hmem
      exact ⟨r, hr, heq ▸ hstep⟩

def tableLine (name : String) : String :=
  name ++ ": tableAccess(db, " ++ string name ++ ", " ++ statementsName name ++ "),"

/-- The line of a table tells its name, although the name stands in it three
times. -/
theorem tableLine_injective : Function.Injective tableLine := by
  have hlength (name : String) : (tableLine name).toList.length =
      2 * name.toList.length + (escape name.toList).length + 34 := by
    simp [tableLine, string, quoted, statementsName]
    omega
  have hstart (name : String) : name.toList <+: (tableLine name).toList := by
    simp only [tableLine, String.toList_append, List.append_assoc]
    exact List.prefix_append ..
  intro name name' h
  wlog hle : name.toList.length ≤ name'.toList.length generalizing name name'
  · exact (this h.symm (Nat.le_of_not_le hle)).symm
  obtain ⟨more, hmore⟩ := List.prefix_of_prefix_length_le (hstart name) (h ▸ hstart name') hle
  have hlengths := hlength name
  rw [h, hlength name', ← hmore, escape, List.flatMap_append, List.length_append,
    List.length_append] at hlengths
  have hnil : more = [] := List.eq_nil_of_length_eq_zero (by rw [escape] at hlengths; omega)
  rw [hnil, List.append_nil] at hmore
  exact String.toList_inj.mp hmore

theorem exists_schema_of_mem {schemas : List Schema} {name : String}
    (h : .line (tableLine name) ∈ prepareTables schemas) : ∃ s ∈ schemas, s.name = name := by
  unfold prepareTables at h
  split at h
  · have hend := List.mem_map_of_mem (f := ending) h
    simp [block, ending, tableLine] at hend
  · simp only [block, List.mem_append, List.mem_cons, List.mem_map, reduceCtorEq, false_or,
      or_false, List.not_mem_nil, Piece.line.injEq] at h
    obtain ⟨s, hs, heq⟩ := h
    exact ⟨s, hs, tableLine_injective heq⟩

end Server

namespace Tree

/-- Whether all that a module calls or names is declared by its lines: the
validators and actions of its handlers and the statements of its tables. -/
structure Closed (t : Tree) (m : String) : Prop where
  ends : ∃ front, m = front ++ Code.render (Server.prepareTables t.schemas) ++ "\n"
    ++ Code.render (Server.createHandlers t.routes)
  validators : ∀ f, .line ("data = " ++ f ++ "(data);") ∈ Server.createHandlers t.routes →
    Code.HasLine m ("export function " ++ f ++ r"(input) {")
  actions : ∀ f, .line ("data = await " ++ f ++ "(data, ctx);") ∈ Server.createHandlers t.routes →
    ∃ params, Code.HasLine m ("async function " ++ f ++ "(" ++ params ++ r") {")
  statements : ∀ name, .line (Server.tableLine name) ∈ Server.prepareTables t.schemas →
    Code.HasLine m ("export const " ++ Code.statementsName name ++ r" = Object.freeze({")

theorem emittable_of_emit {options : EmitOptions} {t : Tree} {artifacts : Artifacts}
    (h : t.emit options = .ok artifacts) : t.Emittable :=
  violations_eq_nil_iff.mp ((t.reports_emit options).ok_iff.mp ⟨artifacts, h⟩)

/-- What was generated is the text of the pieces, laid out from the left
edge. -/
theorem exists_pieces_of_emit {options : EmitOptions} {t : Tree} {artifacts : Artifacts}
    (h : t.emit options = .ok artifacts) :
    t.server options = .ok artifacts.server ∧
      ∃ ps, Server.pieces options t = .ok ps ∧ artifacts.server = Code.render ps := by
  obtain ⟨_, -, hartifacts⟩ := Except.bind_eq_ok_iff.mp h
  obtain ⟨m, hm, hartifacts⟩ := Except.bind_eq_ok_iff.mp hartifacts
  obtain rfl := Except.ok.inj hartifacts
  obtain ⟨ps, hps, hrender⟩ := Except.bind_eq_ok_iff.mp hm
  exact ⟨hm, ps, hps, (Except.ok.inj hrender).symm⟩

/-- A module that was generated declares all that its handlers and tables name,
since every step and every table was looked up before. -/
theorem closed_of_emit {options : EmitOptions} {t : Tree} {artifacts : Artifacts}
    (h : t.emit options = .ok artifacts) : t.Closed artifacts.server := by
  have hemittable := emittable_of_emit h
  obtain ⟨hserver, ps, hps, hrender⟩ := exists_pieces_of_emit h
  refine ⟨hrender ▸ Server.exists_render_eq hps, ?_, ?_, ?_⟩
  · intro f hf
    obtain ⟨r, hr, schema, hschema, rfl⟩ := Server.exists_validate_of_mem hf
    obtain ⟨s, hs, rfl⟩ := (hemittable.routes r hr).schemas schema hschema
    exact hrender ▸ Server.hasLine_validator hps hs
  · intro f hf
    obtain ⟨r, hr, haction⟩ := Server.exists_action_of_mem hf
    obtain ⟨a, ha, rfl⟩ := (hemittable.routes r hr).actions f haction
    exact ⟨_, Server.hasLine_action hserver ha⟩
  · intro name hname
    obtain ⟨s, hs, rfl⟩ := Server.exists_schema_of_mem hname
    exact hrender ▸ Server.hasLine_statements hps hs

/-- Code is generated from exactly the trees that keep all rules. Otherwise the
error is that of the first violation, in the order of routes, actions, schemas
and migrations. The module then declares all that its handlers and tables
name. -/
theorem emit_exact (options : EmitOptions) (t : Tree) :
    ((∃ artifacts, t.emit options = .ok artifacts) ↔ t.Emittable) ∧
    (∀ e, t.emit options = .error e ↔ t.violations.head? = some e) ∧
    ∀ artifacts, t.emit options = .ok artifacts → t.Closed artifacts.server :=
  ⟨(t.reports_emit options).ok_iff.trans violations_eq_nil_iff, (t.reports_emit options).error_iff,
    fun _ => closed_of_emit⟩

/-- A validator and an action that a handler calls are declared. A tree with
faults of all kinds is refused for the step that names no schema. -/
theorem emit_exact_pipeline :
    (∃ t : Tree, t.routes = [⟨.post, "/u", [.validate "User", .action "save"], 3⟩] ∧
      ∃ artifacts, t.emit {} = .ok artifacts ∧
        Code.HasLine artifacts.server r"export function validateUser(input) {" ∧
        ∃ params, Code.HasLine artifacts.server ("async function save(" ++ params ++ r") {")) ∧
    Tree.emit {}
        { actions := [⟨"new", ["x", "x"], "", 1⟩]
          routes := [⟨.get, "/n", [.action "new", .validate "User"], 2⟩, ⟨.get, "/", [], 3⟩]
          migrations := [⟨"1", [.createTable "User"], 4⟩] } =
      .error (.unknownSchema .get "/n" "User") := by
  constructor
  · have hemittable : Tree.Emittable ⟨[⟨"User", [], 1⟩], [⟨"save", ["u"], "return u", 2⟩],
        [⟨.post, "/u", [.validate "User", .action "save"], 3⟩], [], []⟩ :=
      violations_eq_nil_iff.mp rfl
    obtain ⟨artifacts, hemit⟩ := (emit_exact {} _).1.mpr hemittable
    have hclosed := (emit_exact {} _).2.2 artifacts hemit
    exact ⟨_, rfl, artifacts, hemit, hclosed.validators "validateUser" (by decide),
      hclosed.actions "save" (by decide)⟩
  · exact ((emit_exact {} _).2.1 _).mpr rfl

end Tree

end BlockLang
