import BlockLang.Proofs.HandlerEntries

/-! # Indentation

Code is laid out below the blocks that are open around it, two spaces for each. The depth of open
blocks is counted by a subtraction that stops at zero, which could hide a block that is closed
without having been opened. It never does: where it stopped, two depths would become one, but code
that ends as deep as it began from every depth keeps them apart.
-/

namespace BlockLang

namespace Code

/-! ## Layout by blocks -/

def indented (blocks : List String) (text : String) : String :=
  if text.isEmpty then "\n"
  else String.ofList (List.replicate (2 * blocks.length) ' ') ++ text ++ "\n"

/-- Whether pieces inside some blocks have a text and leave some blocks open
behind them. Blocks are given by the lines that open them, innermost first. -/
inductive LaidOut : List String → List Piece → String → List String → Prop
  | nil (blocks : List String) : LaidOut blocks [] "" blocks
  | line {blocks behind : List String} {ps : List Piece} {rest : String} (text : String)
      (h : LaidOut blocks ps rest behind) :
      LaidOut blocks (.line text :: ps) (indented blocks text ++ rest) behind
  | blank {blocks behind : List String} {ps : List Piece} {rest : String}
      (h : LaidOut blocks ps rest behind) : LaidOut blocks (.blank :: ps) ("\n" ++ rest) behind
  | opening {blocks behind : List String} {ps : List Piece} {rest : String} (text : String)
      (h : LaidOut (text :: blocks) ps rest behind) :
      LaidOut blocks (.opening text :: ps) (indented blocks text ++ rest) behind
  | closing {blocks behind : List String} {ps : List Piece} {rest : String} (first text : String)
      (h : LaidOut blocks ps rest behind) :
      LaidOut (first :: blocks) (.closing text :: ps) (indented blocks text ++ rest) behind
  | reopening {blocks behind : List String} {ps : List Piece} {rest : String}
      (first text : String) (h : LaidOut (text :: blocks) ps rest behind) :
      LaidOut (first :: blocks) (.reopening text :: ps) (indented blocks text ++ rest) behind
  | verbatim {blocks behind : List String} {ps : List Piece} {rest : String} (text : String)
      (h : LaidOut blocks ps rest behind) :
      LaidOut blocks (.verbatim text :: ps) (ended text ++ rest) behind

def Piece.closes : Piece → Bool
  | closing _ | reopening _ => true
  | _ => false

variable {blocks behind : List String} {ps : List Piece} {text : String}

/-- The depth counts the blocks that are open, so it depends on nothing but how
many there are. -/
theorem LaidOut.depth (h : LaidOut blocks ps text behind) :
    ps.foldl Piece.depthAfter blocks.length = behind.length := by
  induction h with
  | nil => rfl
  | line _ _ ih | blank _ ih | opening _ _ ih | closing _ _ _ ih | reopening _ _ _ ih
  | verbatim _ _ ih => exact ih

/-- The depth is never zero where a block is closed. -/
theorem LaidOut.depth_pos (h : LaidOut blocks ps text behind) {before after : List Piece}
    {p : Piece} (hps : ps = before ++ p :: after) (hp : p.closes = true) :
    0 < before.foldl Piece.depthAfter blocks.length := by
  induction h generalizing before with
  | nil => simp at hps
  | line _ _ ih | blank _ ih | opening _ _ ih | verbatim _ _ ih =>
      cases before with
      | nil =>
          obtain ⟨rfl, -⟩ := List.cons.inj hps
          cases hp
      | cons first before =>
          obtain ⟨rfl, hrest⟩ := List.cons.inj hps
          have hpos := ih hrest
          exact hpos
  | closing _ _ _ ih | reopening _ _ _ ih =>
      cases before with
      | nil => exact Nat.succ_pos _
      | cons first before =>
          obtain ⟨rfl, hrest⟩ := List.cons.inj hps
          have hpos := ih hrest
          exact hpos

/-- Code can be laid out, or else it closes a block where none is open and is
from there on as deep as with one block more around it. -/
theorem laidOut_or_merges (blocks : List String) (ps : List Piece) :
    (∃ behind, LaidOut blocks ps (String.join (renderFrom blocks.length ps)) behind) ∨
      ps.foldl Piece.depthAfter blocks.length = ps.foldl Piece.depthAfter (blocks.length + 1) := by
  induction ps generalizing blocks with
  | nil => exact .inl ⟨blocks, .nil blocks⟩
  | cons p ps ih =>
      rw [renderFrom, String.join_cons]
      cases p with
      | line text =>
          refine (ih blocks).imp ?_ id
          rintro ⟨behind, h⟩
          exact ⟨behind, .line text h⟩
      | blank =>
          refine (ih blocks).imp ?_ id
          rintro ⟨behind, h⟩
          exact ⟨behind, .blank h⟩
      | verbatim text =>
          refine (ih blocks).imp ?_ id
          rintro ⟨behind, h⟩
          exact ⟨behind, .verbatim text h⟩
      | opening text =>
          refine (ih (text :: blocks)).imp ?_ id
          rintro ⟨behind, h⟩
          exact ⟨behind, .opening text h⟩
      -- Nothing is open: depth zero stays zero, and so starting one deeper ends the same.
      | closing text =>
          cases blocks with
          | nil => exact .inr rfl
          | cons first blocks =>
              refine (ih blocks).imp ?_ id
              rintro ⟨behind, h⟩
              exact ⟨behind, .closing first text h⟩
      | reopening text =>
          cases blocks with
          | nil => exact .inr rfl
          | cons first blocks =>
              refine (ih (text :: blocks)).imp ?_ id
              rintro ⟨behind, h⟩
              exact ⟨behind, .reopening first text h⟩

/-- Code that ends as deep as it began, from every depth, is laid out by its own
blocks. -/
theorem Level.laidOut (h : Level ps) : LaidOut [] ps (render ps) [] := by
  rcases laidOut_or_merges [] ps with ⟨behind, hlaid⟩ | hmerges
  · have hdepth := hlaid.depth
    rw [h] at hdepth
    obtain rfl := List.eq_nil_of_length_eq_zero hdepth.symm
    exact hlaid
  · rw [h, h] at hmerges
    exact absurd hmerges (Nat.succ_ne_self _).symm

/-- Whether every line of a text of pieces is indented by the blocks around it.
Depths begin and end at zero, where no block is closed. -/
structure Indented (ps : List Piece) (text : String) : Prop where
  laidOut : LaidOut [] ps text []
  ends : ps.foldl Piece.depthAfter 0 = 0
  closes : ∀ before p after, ps = before ++ p :: after → p.closes = true →
    0 < before.foldl Piece.depthAfter 0

/-- Code that keeps to its level is indented by the blocks around each line. -/
theorem Level.indented (h : Level ps) : Indented ps (render ps) where
  laidOut := h.laidOut
  ends := h 0
  closes := fun _ _ _ hps hp => h.laidOut.depth_pos hps hp

/-! ## Texts of lines -/

def Piece.verbatim? : Piece → Option String
  | verbatim text => some text
  | _ => none

inductive Flush : String → Prop
  | of {c : Char} {rest : List Char} (h : (c == ' ') = false) : Flush (String.ofList (c :: rest))

theorem flush_of_toList {text : String} {c : Char} {rest : List Char} (h : text.toList = c :: rest)
    (hc : (c == ' ') = false) : Flush text := by
  obtain rfl : text = String.ofList (c :: rest) := String.toList_inj.mp (by simpa using h)
  exact .of hc

/-- A text that may be empty, before one that begins with something other than a
space. -/
theorem flush_append_of_ne {start rest : String} (h : start.toList.head? ≠ some ' ')
    (hrest : Flush rest) : Flush (start ++ rest) := by
  cases hstart : start.toList with
  | nil =>
      rw [String.toList_eq_nil_iff.mp hstart, String.empty_append]
      exact hrest
  | cons c cs =>
      rw [hstart] at h
      have htext : (start ++ rest).toList = c :: (cs ++ rest.toList) := by
        rw [String.toList_append, hstart, List.cons_append]
      exact flush_of_toList htext (beq_eq_false_iff_ne.mpr fun hc => h (congrArg some hc))

theorem Flush.append {start rest : String} (h : Flush start) : Flush (start ++ rest) := by
  cases h with
  | @of c cs hc =>
      have htext : (String.ofList (c :: cs) ++ rest).toList = c :: (cs ++ rest.toList) := by
        rw [String.toList_append, String.toList_ofList, List.cons_append]
      exact flush_of_toList htext hc

theorem Flush.around {start middle rest : String} (h : Flush start) :
    Flush (start ++ middle ++ rest) := h.append.append

theorem flush_string (value : String) : Flush (string value) := .of rfl

def Piece.IsFlush : Piece → Prop
  | line text | opening text | closing text | reopening text => Flush text
  | blank => True
  | verbatim _ => False

/-- Whether all pieces are lines, and the indentation of each is all that stands
before it: no line brings spaces of its own. -/
def FlushLines (ps : List Piece) : Prop := ∀ p ∈ ps, p.IsFlush

theorem FlushLines.verbatims (h : FlushLines ps) : ps.filterMap Piece.verbatim? = [] := by
  refine List.filterMap_eq_nil_iff.mpr fun p hp => ?_
  have hflush := h p hp
  cases p with
  | verbatim => cases hflush
  | _ => rfl

theorem flushLines_nil : FlushLines [] := fun _ h => absurd h List.not_mem_nil

theorem flushLines_cons {p : Piece} (hp : p.IsFlush) (hps : FlushLines ps) : FlushLines (p :: ps) :=
  List.forall_mem_cons.mpr ⟨hp, hps⟩

theorem flushLines_blank (hps : FlushLines ps) : FlushLines (.blank :: ps) :=
  flushLines_cons trivial hps

theorem flushLines_line {text : String} (h : Flush text) (hps : FlushLines ps) :
    FlushLines (.line text :: ps) := flushLines_cons h hps

theorem FlushLines.append {qs : List Piece} (hp : FlushLines ps) (hq : FlushLines qs) :
    FlushLines (ps ++ qs) := List.forall_mem_append.mpr ⟨hp, hq⟩

theorem flushLines_flatMap {α : Type} {as : List α} {f : α → List Piece}
    (h : ∀ a ∈ as, FlushLines (f a)) : FlushLines (as.flatMap f) := by
  intro p hp
  obtain ⟨a, ha, hpa⟩ := List.mem_flatMap.mp hp
  exact h a ha p hpa

theorem flushLines_map {α : Type} {as : List α} {f : α → Piece} (h : ∀ a ∈ as, (f a).IsFlush) :
    FlushLines (as.map f) := List.forall_mem_map.mpr h

theorem flushLines_block {before after : String} (hbefore : Flush before) (hafter : Flush after)
    (hps : FlushLines ps) : FlushLines (block before ps after) :=
  flushLines_cons hbefore (hps.append (flushLines_cons hafter flushLines_nil))

end Code

namespace Server

open Code

/-! ## The emitters -/

theorem flush_throwFailure (field message : String) : Flush (throwFailure field message) :=
  .around (.around (.of rfl))

theorem isFlush_storeLine (field value : String) : (storeLine field value).IsFlush :=
  Flush.around (.around (.of rfl))

theorem flushLines_presentLines (c : Check) : FlushLines (presentLines c) := by
  have hguards : FlushLines (c.guards.map (guardLine c.field)) :=
    flushLines_map fun guard _ => Flush.append (.around (.of rfl))
  have hstore (value : String) : FlushLines [storeLine c.field value] :=
    flushLines_cons (isFlush_storeLine c.field value) flushLines_nil
  unfold presentLines
  cases c.kind with
  | text | passthrough => exact hguards.append (hstore "value")
  | integer | number => exact flushLines_line (.of rfl) (hguards.append (hstore "n"))
  | boolean => exact hguards.append (hstore "Boolean(value)")

/-- The lines of a check begin with words and braces of the generator, so no
text of the source is at the start of a line. -/
theorem flushLines_checkCode (c : Check) : FlushLines (checkCode c) := by
  have habsent : (absentLine c).IsFlush := by
    unfold absentLine
    split
    · exact isFlush_storeLine c.field "null"
    · exact flush_throwFailure _ _
  refine flushLines_block (.of rfl) (.of rfl)
    ((FlushLines.append ?_ (flushLines_presentLines c)).append ?_)
  · exact flushLines_line (.around (.of rfl)) (flushLines_cons (Flush.of rfl)
      (flushLines_cons habsent (flushLines_cons (Flush.of rfl) flushLines_nil)))
  · exact flushLines_cons (Flush.of rfl) flushLines_nil

/-- A validator begins each of its lines with a word, a brace or nothing,
whatever the schema is called. -/
theorem flushLines_validator (schema : String) (checks : List Check) :
    FlushLines (validator schema checks) := by
  have hobject : FlushLines objectCode :=
    flushLines_block (.of rfl) (.of rfl) (flushLines_line (flush_throwFailure _ _) flushLines_nil)
  have hchecks : FlushLines (checks.flatMap checkCode) :=
    flushLines_flatMap fun c _ => flushLines_checkCode c
  refine flushLines_block (.around (.of rfl)) (.of rfl) ?_
  exact ((hobject.append (flushLines_line (.of rfl) flushLines_nil)).append hchecks).append
    (flushLines_line (.of rfl) flushLines_nil)

theorem flushLines_columnGuard (schema column what : String) :
    FlushLines (columnGuard schema column what) := by
  refine flushLines_block (.around (.around (.of rfl))) (.of rfl)
    (flushLines_line ?_ flushLines_nil)
  exact .append (.around (.around (.around (.of rfl))))

theorem flushLines_listBuilder (d : Dialect) (schema : String) :
    FlushLines (listBuilder d schema) := by
  have hfilter : FlushLines (filterCode d schema) := by
    refine flushLines_block (.of rfl) (.of rfl) ((flushLines_columnGuard _ _ _).append ?_)
    exact flushLines_line (.of rfl) (flushLines_line (.around (.of rfl)) flushLines_nil)
  have hsort : FlushLines (sortCode schema) := by
    refine flushLines_block (.of rfl) (.of rfl) ((flushLines_columnGuard _ _ _).append ?_)
    exact flushLines_line (.append (.of rfl)) flushLines_nil
  refine flushLines_block (.around (.of rfl)) (.of rfl)
    ((((FlushLines.append ?_ hfilter).append ?_).append hsort).append ?_)
  · exact flushLines_line (.of rfl) (flushLines_line (.of rfl) flushLines_nil)
  · exact flushLines_line (.around (.of rfl)) (flushLines_line (.of rfl) flushLines_nil)
  · exact flushLines_line (.of rfl) flushLines_nil

theorem flushLines_statementsObject (schema : String) (s : Statements) :
    FlushLines (statementsObject schema s) := by
  refine flushLines_block (.around (.of rfl)) (.of rfl) ?_
  exact flushLines_line (.around (.of rfl)) (flushLines_line (.around (.of rfl))
    (flushLines_line (.around (.of rfl)) (flushLines_line (.around (.of rfl))
      (flushLines_line (.around (.of rfl)) flushLines_nil))))

theorem flushLines_migrationList (migrations : List (String × List String)) :
    FlushLines (migrationList migrations) := by
  have hobject (m : String × List String) : FlushLines (migrationObject m.1 m.2) := by
    have hstatements : FlushLines (m.2.map fun s => .line (string s ++ ",")) :=
      flushLines_map fun s _ => (flush_string s).append
    exact flushLines_block (.of rfl) (.of rfl)
      (flushLines_line (.around (.of rfl)) (flushLines_block (.of rfl) (.of rfl) hstatements))
  unfold migrationList
  split
  · exact flushLines_line (.of rfl) flushLines_nil
  · exact flushLines_block (.of rfl) (.of rfl) (flushLines_flatMap fun m _ => hobject m)

/-- Only in the list of tables do lines begin with names of the tree. -/
theorem flushLines_prepareTables {schemas : List Schema}
    (h : ∀ s ∈ schemas, s.name.toList.head? ≠ some ' ') : FlushLines (prepareTables schemas) := by
  refine flushLines_block (.of rfl) (.of rfl) ?_
  split
  · exact flushLines_line (.of rfl) flushLines_nil
  · refine flushLines_block (.of rfl) (.of rfl) (flushLines_map fun s hs => ?_)
    have hname : Flush (s.name ++ ": tableAccess(db, ") := flush_append_of_ne (h s hs) (.of rfl)
    exact hname.around.around

/-- Even where a name of a schema begins with a space, its line is indented like
all others. -/
theorem verbatims_prepareTables (schemas : List Schema) :
    (prepareTables schemas).filterMap Piece.verbatim? = [] := by
  unfold prepareTables
  split <;>
    simp [block, List.filterMap_cons, List.filterMap_map, Function.comp_def, Piece.verbatim?]

theorem flushLines_handler (v : Verb) (path : String) {code : List Piece} (h : FlushLines code) :
    FlushLines (handler v path code) := by
  have hkey : FlushLines [.line ("method: " ++ string v.spelling ++ ","),
      .line ("path: " ++ string path ++ ",")] :=
    flushLines_line (.around (.of rfl)) (flushLines_line (.around (.of rfl)) flushLines_nil)
  exact flushLines_block (.of rfl) (.of rfl) (hkey.append (flushLines_block (.of rfl) (.of rfl) h))

theorem flushLines_stepLines (s : Step) : FlushLines (stepLines s) := by
  cases s with
  | auth => exact flushLines_line (.of rfl) flushLines_nil
  | validate => exact flushLines_line (.around (.of rfl)) flushLines_nil
  | action =>
      exact flushLines_line (.around (.of rfl)) (flushLines_line (.of rfl) flushLines_nil)

/-- The handlers of all routes, with the lines of all their steps, begin with no
space. -/
theorem flushLines_createHandlers (routes : List Route) : FlushLines (createHandlers routes) := by
  have hroute (r : Route) : FlushLines (routeHandler r) := by
    refine flushLines_handler r.verb r.path (FlushLines.append (FlushLines.append ?_ ?_) ?_)
    · exact flushLines_line (.append (.of rfl))
        (flushLines_cons (Flush.of rfl) (flushLines_line (.of rfl) flushLines_nil))
    · exact flushLines_flatMap fun s _ => flushLines_stepLines s
    · exact flushLines_line (.of rfl) (flushLines_cons (Flush.of rfl) (flushLines_line (.of rfl)
        (flushLines_line (.of rfl) (flushLines_cons (Flush.of rfl) flushLines_nil))))
  have hhealth : FlushLines (if routes.any isHealth then [] else healthHandler) := by
    split
    · exact flushLines_nil
    · exact flushLines_handler .get healthPath (flushLines_line (.of rfl) flushLines_nil)
  refine flushLines_block (.of rfl) (.of rfl) (flushLines_line (.of rfl)
    (flushLines_block (.of rfl) (.of rfl) ?_))
  exact hhealth.append (flushLines_flatMap fun r _ => hroute r)

/-- The bodies of actions are all that is not indented in their section. -/
theorem verbatims_actionSection (actions : List Action) :
    (actionSection actions).filterMap Piece.verbatim? = actions.map Action.body := by
  have hactions : (actions.flatMap fun a => .blank :: actionCode a).filterMap Piece.verbatim? =
      actions.map Action.body := by
    rw [List.filterMap_flatMap, List.map_eq_flatMap]
    rfl
  unfold actionSection
  split
  · next hempty => rw [List.isEmpty_iff.mp hempty, List.filterMap_nil, List.map_nil]
  · rw [List.filterMap_append, hactions]
    rfl

theorem isFlush_of_mem_actionCode {a : Action} {p : Piece} (h : p ∈ actionCode a)
    (hp : p.verbatim? = none) : p.IsFlush := by
  simp only [actionCode, List.mem_cons, List.not_mem_nil, or_false] at h
  rcases h with rfl | rfl | rfl | rfl
  · exact Flush.append (.of rfl)
  · exact Flush.around (.around (.of rfl))
  · cases hp
  · exact Flush.of rfl

/-- All else in the section of the actions is made of lines that begin with no
space. -/
theorem isFlush_of_mem_actionSection {actions : List Action} {p : Piece}
    (h : p ∈ actionSection actions) (hp : p.verbatim? = none) : p.IsFlush := by
  have htitle : FlushLines [.blank, .line "// ── Actions ──"] :=
    flushLines_blank (flushLines_line (.of rfl) flushLines_nil)
  unfold actionSection at h
  split at h
  · cases h
  · rcases List.mem_append.mp h with h | h
    · exact htitle p h
    · obtain ⟨a, -, ha⟩ := List.mem_flatMap.mp h
      rcases List.mem_cons.mp ha with rfl | ha
      · trivial
      · exact isFlush_of_mem_actionCode ha hp

/-! ## Whole files -/

namespace Part

variable (options : EmitOptions) (t : Tree)

/-- All parts of a module but two are lines that begin with no space: the
actions have their bodies, and the tables have names of schemas. -/
theorem flushLines_code {p : Part} (hactions : p ≠ .actions) (htables : p ≠ .tables) :
    FlushLines (p.code options t) := by
  cases p with
  | header => exact flushLines_line (.of rfl) flushLines_nil
  | importing => exact flushLines_line (.around (.around (.of rfl))) flushLines_nil
  | title =>
      exact flushLines_blank (flushLines_line (.around (.of rfl)) (flushLines_blank flushLines_nil))
  | validator s => exact flushLines_validator s.name _
  | columns s =>
      exact flushLines_blank (flushLines_line (.around (.around (.of rfl)))
        (flushLines_blank flushLines_nil))
  | statements s => exact flushLines_statementsObject s.name _
  | listing s => exact flushLines_blank (flushLines_listBuilder options.dialect s.name)
  | actions => exact absurd rfl hactions
  | migrations => exact flushLines_blank (flushLines_migrationList _)
  | tables => exact absurd rfl htables
  | handlers => exact flushLines_blank (flushLines_createHandlers t.routes)

theorem verbatims_code (p : Part) : (p.code options t).filterMap Piece.verbatim? =
    if p = .actions then t.actions.map Action.body else [] := by
  split
  · next h =>
      rw [h]
      exact verbatims_actionSection t.actions
  · next hactions =>
      by_cases htables : p = .tables
      · rw [htables]
        exact verbatims_prepareTables t.schemas
      · exact (flushLines_code options t hactions htables).verbatims

theorem isFlush_of_mem_code (h : ∀ s ∈ t.schemas, s.name.toList.head? ≠ some ' ') {p : Part}
    {piece : Piece} (hpiece : piece ∈ p.code options t) (hlines : piece.verbatim? = none) :
    piece.IsFlush := by
  by_cases hactions : p = .actions
  · rw [hactions] at hpiece
    exact isFlush_of_mem_actionSection hpiece hlines
  · by_cases htables : p = .tables
    · rw [htables] at hpiece
      exact flushLines_blank (flushLines_prepareTables h) piece hpiece
    · exact flushLines_code options t hactions htables piece hpiece

end Part

/-- In a whole module, the bodies of the actions are all that is copied as it
is. -/
theorem verbatims_parts (options : EmitOptions) (t : Tree) :
    ((parts t).flatMap (Part.code options t)).filterMap Piece.verbatim? =
      t.actions.map Action.body := by
  simp [parts, List.filterMap_flatMap, List.flatMap_assoc, Part.verbatims_code]

theorem level_typePieces (t : Tree) : Level (typePieces t) := by
  have hline (text : String) : Level [.line text] := fun _ => rfl
  have hblank : Level [.blank] := fun _ => rfl
  have hfields (s : Schema) : Level (s.dataFields.map (fieldLine t)) := by
    rw [List.map_eq_flatMap]
    refine level_flatMap fun f _ => ?_
    unfold fieldLine
    split <;> exact hline _
  have hinterface (s : Schema) : Level (.blank :: interfaceCode t s) :=
    hblank.append (level_block ((hline _).append (hfields s)))
  have hnames : Level (schemaNameType t.schemas) := by
    unfold schemaNameType
    split <;> exact fun _ => rfl
  exact ((hline header).append (level_flatMap fun s _ => hinterface s)).append hnames

theorem flush_propertyName (name : String) : Flush (propertyName name) := by
  unfold propertyName
  split
  · next h =>
      have hstart := (Bool.and_eq_true_iff.mp h).1
      cases hname : name.toList with
      | nil =>
          rw [hname] at hstart
          cases hstart
      | cons c rest =>
          rw [hname] at hstart
          refine flush_of_toList hname (beq_eq_false_iff_ne.mpr ?_)
          rintro rfl
          cases hstart
  · exact flush_string name

/-- The type declarations are made of lines that begin with no space, whatever
the names of schemas and fields are. -/
theorem flushLines_typePieces (t : Tree) : FlushLines (typePieces t) := by
  have hfield (f : Field) : (fieldLine t f).IsFlush := by
    unfold fieldLine
    split <;> exact (flush_propertyName f.name).around.append
  have hinterface (s : Schema) : FlushLines (interfaceCode t s) :=
    flushLines_block (.around (.of rfl)) (.of rfl)
      (flushLines_line (.append (.of rfl)) (flushLines_map fun f _ => hfield f))
  have hnames : FlushLines (schemaNameType t.schemas) := by
    unfold schemaNameType
    split
    · exact flushLines_nil
    · exact flushLines_blank (flushLines_line (.around (.of rfl)) flushLines_nil)
  exact flushLines_line (.of rfl) (FlushLines.append
    (flushLines_flatMap fun s _ => flushLines_blank (hinterface s)) hnames)

end Server

open Code

/-- The lines of all generated files are indented by the blocks that are open
around them, and no block is closed that is not open. In a server module the
bodies of the actions are all that is not indented. No line has spaces of its
own behind its indentation, unless the name of a schema begins with one; type
declarations have lines only. -/
theorem Tree.artifacts_indented (options : EmitOptions) (t : Tree) :
    (∀ text, t.server options = .ok text → ∃ ps, Server.pieces options t = .ok ps ∧
      Indented ps text ∧ ps.filterMap Piece.verbatim? = t.actions.map Action.body ∧
      ((∀ s ∈ t.schemas, s.name.toList.head? ≠ some ' ') →
        ∀ p ∈ ps, p.verbatim? = none → p.IsFlush)) ∧
      Indented (Server.typePieces t) t.types ∧ FlushLines (Server.typePieces t) := by
  refine ⟨?_, (Server.level_typePieces t).indented, Server.flushLines_typePieces t⟩
  intro text h
  obtain ⟨ps, hps, htext⟩ := Except.bind_eq_ok_iff.mp h
  obtain rfl := Except.ok.inj htext
  have hparts := Server.pieces_eq_parts hps
  have hlevel : Level ps := by
    rw [hparts]
    exact level_flatMap fun p _ => p.level_code options t
  refine ⟨ps, hps, hlevel.indented, ?_, ?_⟩
  · rw [hparts]
    exact Server.verbatims_parts options t
  · intro hnames p hp hlines
    rw [hparts] at hp
    obtain ⟨part, -, hpart⟩ := List.mem_flatMap.mp hp
    exact Server.Part.isFlush_of_mem_code options t hnames hpart hlines

def indentedBody : Tree where
  schemas := [⟨"Note", [], 1⟩]
  actions := [⟨"save", ["note"], "\n    return note;\n", 2⟩]

/-- The body of an action keeps the layout that it was written with. -/
theorem Tree.artifacts_indented_body :
    ∃ text ps, indentedBody.server {} = .ok text ∧ Indented ps text ∧
      ps.filterMap Piece.verbatim? = ["\n    return note;\n"] ∧
      ∀ p ∈ ps, p.verbatim? = none → p.IsFlush := by
  have hserver : ∃ text, indentedBody.server {} = .ok text := ⟨_, rfl⟩
  obtain ⟨text, htext⟩ := hserver
  obtain ⟨ps, -, hindented, hverbatims, hflush⟩ := (artifacts_indented {} _).1 text htext
  refine ⟨text, ps, htext, hindented, hverbatims, hflush ?_⟩
  exact List.forall_mem_singleton.mpr (by decide)

end BlockLang
