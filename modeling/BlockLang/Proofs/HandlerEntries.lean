import BlockLang.Proofs.EmitOptions
import BlockLang.Proofs.NameClashes
import BlockLang.Proofs.Script.Reading
import Mathlib.Data.List.DropRight

/-! # The handlers of a server module

The table of handlers is read back from the lines of a module: each entry has a verb, a path and
the steps that its handler runs. There is one entry for each route, with the steps of the route in
their order, and one for the health check if no route answers it.
-/

namespace BlockLang

/-! ## Lists around others -/

section Between

variable {α : Type} [DecidableEq α]

/-- What stands between a given start and a given end, if the list has both and
they do not overlap. -/
def between? (start stop items : List α) : Option (List α) :=
  let middle := (items.drop start.length).take (items.length - start.length - stop.length)
  if items = start ++ middle ++ stop then some middle else none

theorem between?_append (start middle stop : List α) :
    between? start stop (start ++ middle ++ stop) = some middle := by
  simp [between?]

theorem between?_eq_none {start stop items : List α}
    (h : ∀ middle, items ≠ start ++ middle ++ stop) : between? start stop items = none := by
  simp only [between?, if_neg (h _)]

end Between

namespace Code

open Text

/-! ## Lines without indentation -/

def unindented (line : String) : String := String.ofList (line.toList.dropWhile (· = ' '))

def plainLines (text : String) : List String := (endedLines text).map unindented

structure IsPlain (text : String) : Prop where
  oneLine : OneLine text
  start : text.toList.head? ≠ some ' '

theorem IsPlain.append {start rest : String} (h : IsPlain start) (hne : start.toList ≠ [])
    (hrest : OneLine rest) : IsPlain (start ++ rest) := by
  refine ⟨h.oneLine.append hrest, ?_⟩
  rw [String.toList_append, List.head?_append_of_ne_nil _ hne]
  exact h.start

/-- The blanks that a line was moved in by are all that is taken away again,
because the line itself starts with none. -/
theorem unindented_lineText {text : String} (h : text.toList.head? ≠ some ' ') (depth : Nat) :
    unindented (lineText depth text) = text := by
  have hspaces : ∀ n, (List.replicate n ' ' ++ text.toList).dropWhile (· = ' ') = text.toList := by
    intro n
    rw [List.dropWhile_append_of_pos fun c hc => by simp [List.eq_of_mem_replicate hc]]
    cases hchars : text.toList with
    | nil => rfl
    | cons c rest =>
        rw [hchars] at h
        exact List.dropWhile_cons_of_neg (by simpa using h)
  unfold lineText
  split
  next hempty =>
    rw [String.isEmpty_iff.mp hempty]
    rfl
  next => rw [unindented, String.toList_append, indentation, String.toList_ofList, hspaces,
    String.ofList_toList]

namespace Piece

def text : Piece → String
  | line text | opening text | closing text | reopening text | verbatim text => text
  | blank => ""

def isLine : Piece → Bool
  | verbatim _ => false
  | _ => true

theorem plainLines_render {p : Piece} (hline : p.isLine = true) (h : IsPlain p.text)
    (depth : Nat) : plainLines (p.render depth) = [p.text] := by
  have hlineAt : ∀ depth, plainLines (lineAt depth p.text) = [p.text] := by
    intro depth
    rw [plainLines, lineAt_eq, endedLines_line (oneLine_lineText h.oneLine depth),
      List.map_singleton, unindented_lineText h.start]
  cases p with
  | line | opening => exact hlineAt depth
  | closing | reopening => exact hlineAt (depth - 1)
  | blank => exact hlineAt 0
  | verbatim => cases hline

end Piece

theorem plainLines_append {first : String} (h : WholeLines first) (second : String) :
    plainLines (first ++ second) = plainLines first ++ plainLines second := by
  rw [plainLines, endedLines_append h, List.map_append]
  rfl

def ArePlain (ps : List Piece) : Prop := ∀ p ∈ ps, p.isLine = true ∧ IsPlain p.text

variable {ps : List Piece}

theorem ArePlain.append {qs : List Piece} (hp : ArePlain ps) (hq : ArePlain qs) :
    ArePlain (ps ++ qs) := List.forall_mem_append.mpr ⟨hp, hq⟩

theorem arePlain_cons {p : Piece} (hline : p.isLine = true) (h : IsPlain p.text)
    (hps : ArePlain ps) : ArePlain (p :: ps) :=
  List.forall_mem_cons.mpr ⟨⟨hline, h⟩, hps⟩

theorem arePlain_nil : ArePlain [] := fun _ h => absurd h List.not_mem_nil

theorem arePlain_flatMap {α : Type} {as : List α} {f : α → List Piece}
    (h : ∀ a ∈ as, ArePlain (f a)) : ArePlain (as.flatMap f) := by
  intro p hp
  obtain ⟨a, ha, hpa⟩ := List.mem_flatMap.mp hp
  exact h a ha p hpa

theorem isPlain_of_all {text : String} (h : (bytes text).all (· != '\n'.toUInt8) = true)
    (hstart : text.toList.head? ≠ some ' ') : IsPlain text :=
  ⟨List.ne_of_all_bne h, hstart⟩

theorem arePlain_of_all (h : (ps.all fun p => p.isLine
    && (bytes p.text).all (· != '\n'.toUInt8) && p.text.toList.head? != some ' ') = true) :
    ArePlain ps := by
  intro p hp
  have hplain := List.all_eq_true.mp h p hp
  simp only [Bool.and_eq_true, bne_iff_ne] at hplain
  exact ⟨hplain.1.1, isPlain_of_all hplain.1.2 hplain.2⟩

theorem arePlain_block {before behind : String} (hbefore : IsPlain before) (hps : ArePlain ps)
    (hbehind : IsPlain behind) : ArePlain (block before ps behind) :=
  arePlain_cons rfl hbefore (hps.append (arePlain_cons rfl hbehind arePlain_nil))

/-- Code that holds no verbatim text is read line by line. -/
theorem plainLines_renderFrom (h : ArePlain ps) (depth : Nat) :
    plainLines (String.join (renderFrom depth ps)) = ps.map Piece.text := by
  induction ps generalizing depth with
  | nil => rfl
  | cons p rest ih =>
      obtain ⟨hp, hrest⟩ := List.forall_mem_cons.mp h
      rw [renderFrom, String.join_cons, plainLines_append (wholeLines_piece p depth),
        p.plainLines_render hp.1 hp.2, ih hrest]
      rfl

theorem map_text_block (before behind : String) (ps : List Piece) :
    (block before ps behind).map Piece.text = before :: (ps.map Piece.text ++ [behind]) := by
  simp [block, Piece.text]

end Code

namespace Server

open Code Text

/-! ## Reading handlers -/

structure Entry where
  verb : Verb
  path : String
  /-- The steps that the handler runs. The handler of the health check runs none. -/
  steps : Option (List Step)
  deriving DecidableEq, Repr

def Entry.key (e : Entry) : Verb × String := (e.verb, e.path)

def inside? (start stop line : String) : Option String :=
  (between? start.toList stop.toList line.toList).map String.ofList

def stringValue? (literal : String) : Option String :=
  match literal.toList with
  | '"' :: rest => do
    let (value, size) ← Script.literal? rest
    if size = rest.length then some (String.ofList value) else none
  | _ => none

/-- The steps that lines of a handler run. -/
def steps? : List String → Option (List Step)
  | [] => some []
  | line :: rest =>
    if line = "ctx.user = await authGate(req);" then (.auth :: ·) <$> steps? rest
    else match inside? "data = await " "(data, ctx);" line with
      | some name =>
        match rest with
        | [] => none
        | check :: rest =>
          if check = "if (data === undefined) data = { success: true };" then
            (.action name :: ·) <$> steps? rest
          else none
      | none => do
        let schema ← inside? "data = validate" "(data);" line
        let steps ← steps? rest
        return .validate schema :: steps

def healthLines : List String :=
  [r"async handle(req) {", r#"return { status: 200, body: { status: "ok" } };"#,
    r"},", r"},"]

def stepsStart : List String :=
  [r"async handle(req) {", r"const ctx = { user: null, params: req.params ?? {}, "
      ++ r"query: req.query ?? {}, tables };", r"try {",
    "let data = { ...ctx.query, ...(req.body ?? {}), ...ctx.params };"]

def stepsEnd : List String :=
  ["return { status: 200, body: data };", r"} catch (err) {",
    "const failure = normalizeError(err);",
    "return { status: failure.status, body: { error: failure.message } };", r"}",
    r"},", r"},"]

def entryOf? : List String → Option Entry
  | method :: path :: code => do
    let verb ← Verb.ofWord? (← stringValue? (← inside? "method: " "," method))
    let path ← stringValue? (← inside? "path: " "," path)
    if code = healthLines then return ⟨verb, path, none⟩
    let steps ← steps? (← between? stepsStart stepsEnd code)
    return ⟨verb, path, some steps⟩
  | _ => none

def handlersHeader : String := r"export function createHandlers(db) {"

/-- The entries of the table of handlers of a module: what the last function of
that name gives. -/
def handlers? (text : String) : Option (List Entry) := do
  let code := (plainLines text).rtakeWhile (· ≠ handlersHeader)
  let table ← between? ["const tables = prepareTables(db);", "return ["] ["];", r"}"] code
  match table.splitOn r"{" with
  | [] :: entries => entries.mapM entryOf?
  | _ => none

/-! ## Entries -/

theorem inside?_append (start name stop : String) :
    inside? start stop (start ++ name ++ stop) = some name := by
  rw [inside?, String.toList_append, String.toList_append, between?_append, Option.map_some,
    String.ofList_toList]

/-- A string is read back as what it stands for. -/
theorem stringValue?_string (s : String) : stringValue? (string s) = some s := by
  have htext : (string s).toList = '"' :: (escape s.toList ++ ['"']) := by
    simp [string, quoted]
  rw [stringValue?, htext]
  simp [Script.literal?_escape]

/-- The steps of a route are read back from their lines, in their order. -/
theorem steps?_stepLines (pipeline : List Step) :
    steps? ((pipeline.flatMap stepLines).map Piece.text) = some pipeline := by
  induction pipeline with
  | nil => rfl
  | cons step rest ih =>
      rw [List.flatMap_cons, List.map_append]
      cases step with
      | auth =>
          simp only [stepLines, Piece.text, List.map_cons, List.map_nil, List.cons_append,
            List.nil_append]
          rw [steps?, if_pos rfl, ih]
          rfl
      | validate schema =>
          simp only [stepLines, Piece.text, List.map_cons, List.map_nil, List.cons_append,
            List.nil_append, validatorName]
          have hline : "data = " ++ ("validate" ++ schema) ++ "(data);" =
              "data = validate" ++ schema ++ "(data);" := by
            rw [← String.append_assoc]
            rfl
          have hauth : "data = validate" ++ schema ++ "(data);" ≠
              "ctx.user = await authGate(req);" := by
            rw [Ne, ← String.toList_inj]
            simp
          -- The lines of a validator and an action part behind `data = `, whatever their names are.
          have haction : inside? "data = await " "(data, ctx);"
              ("data = validate" ++ schema ++ "(data);") = none := by
            rw [inside?, between?_eq_none, Option.map_none]
            simp
          rw [hline, steps?, if_neg hauth, haction]
          simp only [inside?_append, ih]
          rfl
      | action name =>
          simp only [stepLines, Piece.text, List.map_cons, List.map_nil, List.cons_append,
            List.nil_append]
          have hauth : "data = await " ++ name ++ "(data, ctx);" ≠
              "ctx.user = await authGate(req);" := by
            rw [Ne, ← String.toList_inj]
            simp
          rw [steps?, if_neg hauth]
          simp only [inside?_append, ih]
          rfl

def routeLines (r : Route) : List String :=
  ("method: " ++ string r.verb.spelling ++ ",") :: ("path: " ++ string r.path ++ ",")
    :: (stepsStart ++ (r.pipeline.flatMap stepLines).map Piece.text ++ stepsEnd)

theorem map_text_routeHandler (r : Route) :
    (routeHandler r).map Piece.text = r"{" :: routeLines r := by
  simp [routeHandler, handler, block, Piece.text, routeLines, stepsStart, stepsEnd]

/-- The lines of the handler of a route make an entry with its verb, its path
and all its steps. -/
theorem entryOf?_routeLines (r : Route) :
    entryOf? (routeLines r) = some ⟨r.verb, r.path, some r.pipeline⟩ := by
  have hhealth : ∀ lines : List String, stepsStart ++ lines ++ stepsEnd ≠ healthLines := by
    intro lines heq
    have hsecond := (List.cons.inj (List.cons.inj heq).2).1
    revert hsecond
    decide
  rw [routeLines, entryOf?, inside?_append, inside?_append]
  simp only [Option.bind_eq_bind, Option.bind_some, stringValue?_string, Verb.ofWord?_spelling,
    if_neg (hhealth _), between?_append, steps?_stepLines]
  rfl

def healthEntryLines : List String :=
  ("method: " ++ string Verb.get.spelling ++ ",") :: ("path: " ++ string healthPath ++ ",")
    :: healthLines

theorem entryOf?_healthEntryLines : entryOf? healthEntryLines = some ⟨.get, healthPath, none⟩ := by
  rw [healthEntryLines, entryOf?, inside?_append, inside?_append]
  simp only [Option.bind_eq_bind, Option.bind_some, stringValue?_string, Verb.ofWord?_spelling,
    if_pos]
  rfl

/-! ## The table -/

def entryLines (routes : List Route) : List (List String) :=
  (if routes.any isHealth then [] else [healthEntryLines]) ++ routes.map routeLines

/-- The lines of the function that makes the handlers: its first line, those of
the entries, and the end of the table. -/
theorem map_text_createHandlers (routes : List Route) :
    (createHandlers routes).map Piece.text =
      handlersHeader :: (["const tables = prepareTables(db);", "return ["]
        ++ (entryLines routes).flatMap (r"{" :: ·) ++ ["];", r"}"]) := by
  have hroutes : (routes.flatMap routeHandler).map Piece.text =
      (routes.map routeLines).flatMap (r"{" :: ·) := by
    rw [List.map_flatMap, List.flatMap_map]
    simp only [map_text_routeHandler]
  have hhealth : healthHandler.map Piece.text = r"{" :: healthEntryLines := rfl
  rw [createHandlers, map_text_block, List.map_cons, map_text_block, List.map_append, hroutes,
    entryLines, List.flatMap_append]
  split
  · simp [Piece.text, handlersHeader]
  · simp [Piece.text, handlersHeader, hhealth]

/-! ## Lines of the table -/

theorem isPlain_around {start name stop : String} (hstart : IsPlain start)
    (hne : start.toList ≠ []) (hname : OneLine name) (hstop : OneLine stop) :
    IsPlain (start ++ name ++ stop) :=
  (hstart.append hne hname).append (by simp [hne]) hstop

theorem arePlain_stepLines {s : Step} (h : s.WellNamed) : ArePlain (stepLines s) := by
  cases s with
  | auth => exact arePlain_of_all (by decide)
  | validate schema =>
      refine arePlain_cons rfl (isPlain_around ?_ (by simp) ?_ ?_) arePlain_nil
      · exact isPlain_of_all rfl (by simp)
      · exact OneLine.append (List.ne_of_all_bne rfl) (ne_newline_of_isWord h)
      · exact List.ne_of_all_bne rfl
  | action name =>
      refine arePlain_cons rfl (isPlain_around ?_ (by simp) ?_ ?_) (arePlain_of_all (by decide))
      · exact isPlain_of_all rfl (by simp)
      · exact ne_newline_of_isWord h
      · exact List.ne_of_all_bne rfl

theorem arePlain_handler (verb : Verb) (path : String) {code : List Piece} (h : ArePlain code) :
    ArePlain (handler verb path code) := by
  have hfield : ∀ start value, IsPlain start → start.toList ≠ [] →
      IsPlain (start ++ string value ++ ",") := fun start value hstart hne =>
    isPlain_around hstart hne (oneLine_quoted value) (List.ne_of_all_bne rfl)
  refine arePlain_block (isPlain_of_all rfl (by simp)) (ArePlain.append ?_ ?_)
    (isPlain_of_all rfl (by simp))
  · refine arePlain_cons rfl (hfield _ _ ?_ (by simp))
      (arePlain_cons rfl (hfield _ _ ?_ (by simp)) arePlain_nil)
    · exact isPlain_of_all rfl (by simp)
    · exact isPlain_of_all rfl (by simp)
  · exact arePlain_block (isPlain_of_all rfl (by simp)) h (isPlain_of_all rfl (by simp))

/-- All lines of the table of handlers are lines of the text, and none of them
starts with a space of its own. -/
theorem arePlain_createHandlers {routes : List Route} (h : ∀ r ∈ routes, r.WellNamed) :
    ArePlain (createHandlers routes) := by
  have hroute : ∀ r ∈ routes, ArePlain (routeHandler r) := by
    intro r hr
    refine arePlain_handler r.verb r.path (ArePlain.append (ArePlain.append ?_ ?_) ?_)
    · exact arePlain_of_all (by decide)
    · exact arePlain_flatMap fun s hs => arePlain_stepLines (h r hr s hs)
    · exact arePlain_of_all (by decide)
  have hhealth : ArePlain (if routes.any isHealth then [] else healthHandler) := by
    split
    · exact arePlain_nil
    · exact arePlain_handler .get healthPath (arePlain_of_all (by decide))
  refine arePlain_block (isPlain_of_all rfl (by simp)) (arePlain_cons rfl ?_ ?_)
    (isPlain_of_all rfl (by simp))
  · exact isPlain_of_all rfl (by simp [Piece.text])
  · exact arePlain_block (isPlain_of_all rfl (by simp)) (hhealth.append (arePlain_flatMap hroute))
      (isPlain_of_all rfl (by simp))

def IsInner (line : String) : Prop := line ≠ handlersHeader ∧ line ≠ r"{"

theorem isInner_of_head {line : String} (h : line.toList.head? ≠ some 'e')
    (h' : line.toList.head? ≠ some '{') : IsInner line := by
  constructor
  · rintro rfl
    exact h rfl
  · rintro rfl
    exact h' rfl

theorem isInner_of_mem_stepLines {s : Step} :
    ∀ line ∈ (stepLines s).map Piece.text, IsInner line := by
  cases s with
  | auth => simp [stepLines, Piece.text, IsInner, handlersHeader]
  | validate schema =>
      simp only [stepLines, Piece.text, List.map_cons, List.map_nil, List.mem_singleton]
      rintro line rfl
      exact isInner_of_head (by simp) (by simp)
  | action name =>
      simp only [stepLines, Piece.text, List.map_cons, List.map_nil, List.mem_cons,
        List.not_mem_nil, or_false]
      rintro line (rfl | rfl)
      · exact isInner_of_head (by simp) (by simp)
      · exact isInner_of_head (by simp) (by simp)

/-- No line inside of an entry is the first line of the function or of another
entry, whatever the paths and the names are. -/
theorem isInner_of_mem_entryLines {routes : List Route} {group : List String}
    (hgroup : group ∈ entryLines routes) : ∀ line ∈ group, IsInner line := by
  have hliteral : ∀ {lines : List String}, (lines.all fun line =>
      line.toList.head? != some 'e' && line.toList.head? != some '{') = true →
      ∀ line ∈ lines, IsInner line := by
    intro lines h line hline
    have hheads := List.all_eq_true.mp h line hline
    simp only [Bool.and_eq_true, bne_iff_ne] at hheads
    exact isInner_of_head hheads.1 hheads.2
  rcases List.mem_append.mp hgroup with hhealth | hroute
  · split at hhealth
    next => cases hhealth
    next =>
      rw [List.mem_singleton.mp hhealth]
      exact hliteral (by decide)
  · obtain ⟨r, -, rfl⟩ := List.mem_map.mp hroute
    refine List.forall_mem_cons.mpr ⟨isInner_of_head (by simp) (by simp),
      List.forall_mem_cons.mpr ⟨isInner_of_head (by simp) (by simp),
        List.forall_mem_append.mpr ⟨List.forall_mem_append.mpr ⟨hliteral (by decide), ?_⟩,
          hliteral (by decide)⟩⟩⟩
    rw [List.map_flatMap]
    intro line hline
    obtain ⟨s, -, hs⟩ := List.mem_flatMap.mp hline
    exact isInner_of_mem_stepLines line hs

/-! ## The handlers of a tree -/

def entries (routes : List Route) : List Entry :=
  (if routes.any isHealth then [] else [⟨.get, healthPath, none⟩])
    ++ routes.map fun r => ⟨r.verb, r.path, some r.pipeline⟩

theorem mapM_entryOf? (routes : List Route) :
    (entryLines routes).mapM entryOf? = some (entries routes) := by
  have hroutes : (routes.map routeLines).mapM entryOf? =
      some (routes.map fun r => ⟨r.verb, r.path, some r.pipeline⟩) := by
    rw [List.mapM_map]
    exact List.mapM_eq_some fun r _ => entryOf?_routeLines r
  rw [entryLines, entries]
  split
  · rw [List.nil_append, List.nil_append, hroutes]
  · rw [List.singleton_append, List.mapM_cons, entryOf?_healthEntryLines, hroutes]
    rfl

/-- The table of handlers that is read from the text of a module has the entries
of its routes. -/
theorem handlers?_of_server {options : EmitOptions} {t : Tree} {text : String}
    (h : t.server options = .ok text) (hnamed : ∀ r ∈ t.routes, r.WellNamed) :
    handlers? text = some (entries t.routes) := by
  obtain ⟨ps, hps, hmodule⟩ := Except.bind_eq_ok_iff.mp h
  obtain rfl := Except.ok.inj hmodule
  obtain ⟨front, hfront⟩ : ∃ front, parts t = front ++ [.handlers] :=
    ⟨_, (List.append_assoc _ [Part.actions, .migrations, .tables] [.handlers]).symm⟩
  have htext : render ps = render (front.flatMap (Part.code options t))
      ++ render (.blank :: createHandlers t.routes) := by
    rw [pieces_eq_parts hps, hfront, List.flatMap_append,
      render_append (level_flatMap fun p _ => p.level_code options t), List.flatMap_singleton]
    rfl
  have hplain : ArePlain (.blank :: createHandlers t.routes) :=
    arePlain_cons rfl (isPlain_of_all rfl (by simp [Piece.text])) (arePlain_createHandlers hnamed)
  have hlines : plainLines (render ps) = plainLines (render (front.flatMap (Part.code options t)))
      ++ ([""] ++ (createHandlers t.routes).map Piece.text) := by
    have hwhole : WholeLines (render (front.flatMap (Part.code options t))) :=
      wholeLines_renderFrom 0 _
    rw [htext, plainLines_append hwhole]
    exact congrArg _ (plainLines_renderFrom hplain 0)
  -- The header does not occur again behind itself, so the last one in the text is that of the
  -- handlers, even if an action has a line that looks the same.
  have hinner : handlersHeader ∉ ["const tables = prepareTables(db);", "return ["]
      ++ (entryLines t.routes).flatMap (r"{" :: ·) ++ ["];", r"}"] := by
    simp only [List.mem_append, List.mem_flatMap, List.mem_cons, not_or, not_exists, not_and]
    refine ⟨⟨by decide, fun group hgroup => ⟨by decide, fun hmem => ?_⟩⟩, by decide⟩
    exact (isInner_of_mem_entryLines hgroup _ hmem).1 rfl
  rw [handlers?, hlines, map_text_createHandlers, ← List.append_assoc, List.rtakeWhile_ne hinner,
    between?_append]
  simp only [Option.bind_eq_bind, Option.bind_some]
  rw [List.splitOn_flatMap_cons fun group hgroup hmem =>
    (isInner_of_mem_entryLines hgroup _ hmem).2 rfl]
  exact mapM_entryOf? t.routes

/-- A route answers the health check if it has the verb and the path of it. -/
theorem any_isHealth_iff {routes : List Route} :
    routes.any isHealth = true ↔ (.get, healthPath) ∈ routes.map Route.key := by
  simp [isHealth, List.mem_map]

/-- The module of a loaded tree has one handler for each route, which runs the
steps of the route in their order, and one for the health check before them
unless a route answers it. No two handlers answer the same requests. -/
theorem handlers_of_load {files : FileTree} {entry root : String} {t : Tree}
    (hload : Tree.load files entry root = .ok t) {options : EmitOptions} {text : String}
    (hserver : t.server options = .ok text) :
    ∃ es, handlers? text = some es ∧
      es = (if (.get, "/health") ∈ t.routes.map Route.key then []
          else [⟨.get, "/health", none⟩])
        ++ t.routes.map (fun r => ⟨r.verb, r.path, some r.pipeline⟩) ∧
      (es.map Entry.key).Nodup ∧
      ∀ key, key ∈ es.map Entry.key ↔ key ∈ t.routes.map Route.key ∨ key = (.get, "/health") := by
  have hnamed := (Modules.wellRead_of_load hload).named.routes
  have hkeys := (Tree.distinctKeys_of_load hload).routes
  have hentries : entries t.routes = (if (.get, "/health") ∈ t.routes.map Route.key then []
      else [⟨.get, "/health", none⟩])
        ++ t.routes.map (fun r => ⟨r.verb, r.path, some r.pipeline⟩) := by
    simp only [entries, any_isHealth_iff]
    rfl
  have hroutes : (t.routes.map fun r => (⟨r.verb, r.path, some r.pipeline⟩ : Entry)).map Entry.key =
      t.routes.map Route.key := by
    rw [List.map_map]
    rfl
  refine ⟨_, handlers?_of_server hserver hnamed, hentries, ?_⟩
  rw [hentries, List.map_append, hroutes]
  split
  next hhealth =>
    refine ⟨hkeys, fun key => ⟨.inl, ?_⟩⟩
    rintro (hkey | rfl)
    · exact hkey
    · exact hhealth
  next hhealth =>
    refine ⟨List.nodup_cons.mpr ⟨hhealth, hkeys⟩, fun key => ?_⟩
    exact List.mem_cons.trans or_comm

def oneRoute : FileTree :=
  ⟨[(["main.bs"], .file (Text.bytes
    r#"do f() {} route { POST "/a" => auth, f, f }"#))], []⟩

/-- The handlers of a project with one route, whose action runs twice because it
is named twice. -/
theorem handlers_of_load_oneRoute :
    ∃ t text, Tree.load oneRoute "main" "/" = .ok t ∧ t.server {} = .ok text ∧
      handlers? text = some [⟨.get, "/health", none⟩,
        ⟨.post, "/a", some [.auth, .action "f", .action "f"]⟩] := by
  let t : Tree :=
    { actions := [⟨"f", [], "", 1⟩]
      routes := [⟨.post, "/a", [.auth, .action "f", .action "f"], 1⟩] }
  have hload : Tree.load oneRoute "main" "/" = .ok t := by decide +kernel
  obtain ⟨text, hserver⟩ := ((t.reports_pieces {}).map Code.render).ok_iff.mpr rfl
  refine ⟨t, text, hload, hserver, ?_⟩
  obtain ⟨es, hes, heq, -⟩ := handlers_of_load hload hserver
  rw [hes, heq]
  rfl

end Server

end BlockLang
