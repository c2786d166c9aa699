import BlockLang.Proofs.TopLevelNames

/-! # What the options reach

A server module is made of parts, and which parts there are depends on the tree alone. The options
get into four kinds of parts, and there only into single lines: the line that imports the helpers,
the lines of SQL statements, and the line with the placeholder of a list query. So two modules of
one tree can be laid side by side, line by line.
-/

namespace BlockLang

namespace Code

open Text

/-! ## Texts line by line -/

/-- The lines of a text that a newline ends. -/
def endedLines (text : String) : List String :=
  (text.toList.splitOn '\n').dropLast.map String.ofList

theorem endedLines_newline (front back : String) :
    endedLines (front ++ "\n" ++ back) =
      (front.toList.splitOn '\n').map String.ofList ++ endedLines back := by
  have htext : (front ++ "\n" ++ back).toList = front.toList ++ '\n' :: back.toList := by
    rw [String.append_assoc, String.toList_append, String.toList_append]
    rfl
  rw [endedLines, htext, List.splitOn_append_cons_self,
    List.dropLast_append_of_ne_nil (List.splitOn_ne_nil _ _), List.map_append, endedLines]

/-- Texts of whole lines have their lines one after another. -/
theorem endedLines_append {first : String} (h : WholeLines first) (second : String) :
    endedLines (first ++ second) = endedLines first ++ endedLines second := by
  rcases h with rfl | ⟨front, rfl⟩
  · rw [String.empty_append]
    rfl
  · have hfront := endedLines_newline front ""
    rw [String.append_empty] at hfront
    rw [endedLines_newline, hfront, List.append_assoc]
    rfl

theorem endedLines_line {text : String} (h : OneLine text) :
    endedLines (text ++ "\n") = [text] := by
  have hnewline : '\n' ∉ text.toList := by
    intro hmem
    refine h '\n'.toUInt8 ?_ rfl
    rw [bytes_eq_flatMap]
    exact List.mem_flatMap.mpr ⟨'\n', hmem, by decide⟩
  have hline := endedLines_newline text ""
  rw [String.append_empty, List.splitOn_eq_singleton hnewline] at hline
  rw [hline, List.map_singleton, String.ofList_toList]
  rfl

/-- The lines of texts of whole lines that are put together are those of the
single texts, in their order. -/
theorem endedLines_join {texts : List String} (h : ∀ text ∈ texts, WholeLines text) :
    endedLines (String.join texts) = texts.flatMap endedLines := by
  induction texts with
  | nil => rfl
  | cons text rest ih =>
      obtain ⟨htext, hrest⟩ := List.forall_mem_cons.mp h
      rw [String.join_cons, endedLines_append htext, ih hrest, List.flatMap_cons]

theorem render_flatMap {α : Type} {as : List α} {f : α → List Piece} (h : ∀ a ∈ as, Level (f a)) :
    render (as.flatMap f) = String.join (as.map fun a => render (f a)) := by
  induction as with
  | nil => rfl
  | cons a rest ih =>
      obtain ⟨ha, hrest⟩ := List.forall_mem_cons.mp h
      rw [List.flatMap_cons, render_append ha, ih hrest, List.map_cons, String.join_cons]

/-! ## Code side by side -/

variable {R : String → String → Prop} {depth : Nat} {ps qs ps' qs' : List Piece}

def SameBut (R : String → String → Prop) : List String → List String → Prop :=
  List.Forall₂ fun first second => first = second ∨ R first second

theorem SameBut.refl (lines : List String) : SameBut R lines lines :=
  List.forall₂_same.mpr fun _ _ => .inl rfl

/-- Whether two pieces of code that leave no block open have the same lines, but
for lines that a relation allows to differ. -/
structure Matches (R : String → String → Prop) (depth : Nat) (ps qs : List Piece) : Prop where
  left : Level ps
  right : Level qs
  lines : SameBut R (endedLines (String.join (renderFrom depth ps)))
    (endedLines (String.join (renderFrom depth qs)))

theorem matches_refl (h : Level ps) : Matches R depth ps ps := ⟨h, h, .refl _⟩

/-- Pieces that match stay matched when more matching pieces follow, since none
of them changes the depth of the next. -/
theorem Matches.append (h : Matches R depth ps qs) (h' : Matches R depth ps' qs') :
    Matches R depth (ps ++ ps') (qs ++ qs') := by
  refine ⟨h.left.append h'.left, h.right.append h'.right, ?_⟩
  rw [renderFrom_append, renderFrom_append, h.left, h.right, String.join_append,
    String.join_append, endedLines_append (wholeLines_renderFrom depth ps),
    endedLines_append (wholeLines_renderFrom depth qs)]
  exact List.rel_append h.lines h'.lines

theorem Matches.cons {p q : Piece} (h : Matches R depth [p] [q]) (h' : Matches R depth ps qs) :
    Matches R depth (p :: ps) (q :: qs) := h.append h'

theorem matches_flatMap {α β : Type} {as : List α} {bs : List β} {f : α → List Piece}
    {g : β → List Piece} (h : List.Forall₂ (fun a b => Matches R depth (f a) (g b)) as bs) :
    Matches R depth (as.flatMap f) (bs.flatMap g) := by
  induction h with
  | nil => exact matches_refl fun _ => rfl
  | cons hfirst _ ih =>
      rw [List.flatMap_cons, List.flatMap_cons]
      exact hfirst.append ih

/-- Lines that may differ, where the relation is about the lines as they stand
in the text, moved in. -/
theorem matches_line {text text' : String} (hline : OneLine text) (hline' : OneLine text')
    (h : R (lineText depth text) (lineText depth text')) :
    Matches R depth [.line text] [.line text'] := by
  have hrender (text : String) (hline : OneLine text) :
      endedLines (String.join (renderFrom depth [.line text])) = [lineText depth text] := by
    simp only [renderFrom, Piece.render, lineAt_eq, String.join_cons, String.join_nil,
      String.append_empty]
    exact endedLines_line (oneLine_lineText hline depth)
  refine ⟨fun _ => rfl, fun _ => rfl, ?_⟩
  rw [hrender text hline, hrender text' hline']
  exact .cons (.inr h) .nil

theorem Matches.block {before behind : String} (h : Matches R (depth + 1) ps qs) :
    Matches R depth (block before ps behind) (block before qs behind) := by
  refine ⟨level_block h.left, level_block h.right, ?_⟩
  have hline (text : String) : WholeLines (lineAt depth text) := .inr ⟨_, lineAt_eq depth text⟩
  have hlines (ps : List Piece) (hlevel : Level ps) :
      endedLines (String.join (renderFrom depth (Code.block before ps behind))) =
        endedLines (lineAt depth before) ++ (endedLines (String.join (renderFrom (depth + 1) ps))
          ++ endedLines (lineAt depth behind)) := by
    rw [join_renderFrom_block, hlevel, Nat.add_sub_cancel, String.append_assoc,
      endedLines_append (hline before), endedLines_append (wholeLines_renderFrom _ _)]
  rw [hlines ps h.left, hlines qs h.right]
  exact List.rel_append (SameBut.refl _) (List.rel_append h.lines (SameBut.refl _))

theorem lineText_of_ne {text : String} (h : text ≠ "") (depth : Nat) :
    lineText depth text = indentation depth ++ text := by
  rw [lineText, if_neg]
  rwa [String.isEmpty_iff]

end Code

namespace Server

open Code Text

/-! ## Parts of a module -/

inductive Part where
  | header
  | importing
  | title (s : Schema)
  | validator (s : Schema)
  | columns (s : Schema)
  | statements (s : Schema)
  | listing (s : Schema)
  | actions
  | migrations
  | tables
  | handlers
  deriving DecidableEq, Repr

def parts (t : Tree) : List Part :=
  [Part.header, Part.importing]
    ++ t.schemas.flatMap (fun s =>
      [Part.title s, Part.validator s, Part.columns s, Part.statements s, Part.listing s])
    ++ [Part.actions, Part.migrations, Part.tables, Part.handlers]

/-- The version of a migration and its statements; an operation without one has
an empty text. -/
def versioned (d : Dialect) (t : Tree) (m : Migration) : String × List String :=
  (m.version, m.operations.map fun op => (op.statement d t m.version).toOption.getD "")

namespace Part

/-- The code of a part. A blank line before a part belongs to it. -/
def code (options : EmitOptions) (t : Tree) : Part → List Piece
  | header => [.line Code.header]
  | importing => [importLine options]
  | title s => [.blank, .line ("// ── " ++ s.name ++ " ──"), .blank]
  | validator s => Server.validator s.name (s.checks.toOption.getD [])
  | columns s => [.blank, .line ("export const " ++ columnsName s.name ++ " = Object.freeze("
      ++ strings s.columns ++ ");"), .blank]
  | statements s => statementsObject s.name (.ofSchema options.dialect s)
  | listing s => .blank :: listBuilder options.dialect s.name
  | actions => actionSection t.actions
  | migrations => .blank :: migrationList (t.migrations.map (versioned options.dialect t))
  | tables => .blank :: prepareTables t.schemas
  | handlers => .blank :: createHandlers t.routes

def text (options : EmitOptions) (t : Tree) (p : Part) : String := render (p.code options t)

def isFixed : Part → Bool
  | importing | statements _ | listing _ | migrations => false
  | _ => true

/-- Every part of a module closes what it opens, so the text of a module is the
texts of its parts put together. -/
theorem level_code (options : EmitOptions) (t : Tree) (p : Part) : Level (p.code options t) := by
  have hblank : Level [Piece.blank] := fun _ => rfl
  cases p with
  | header | importing | title | columns | statements | listing => exact fun _ => rfl
  | validator s => exact level_validator s.name _
  | actions => exact level_actionSection t.actions
  | migrations => exact hblank.append (level_migrationList _)
  | tables => exact hblank.append (level_prepareTables t.schemas)
  | handlers => exact hblank.append (level_createHandlers t.routes)

end Part

theorem schemaSection_eq (options : EmitOptions) (t : Tree) (s : Schema) :
    schemaSection options s (s.checks.toOption.getD []) =
      [Part.title s, .validator s, .columns s, .statements s, .listing s].flatMap
        (Part.code options t) := by
  simp [schemaSection, queries, Part.code]

/-- The code of a module is that of its parts. -/
theorem pieces_eq_parts {options : EmitOptions} {t : Tree} {ps : List Piece}
    (h : pieces options t = .ok ps) : ps = (parts t).flatMap (Part.code options t) := by
  simp only [pieces, Except.bind_eq_ok_iff] at h
  obtain ⟨sections, hsections, migrations, hmigrations, h⟩ := h
  have hschemas : sections.flatten = t.schemas.flatMap fun s =>
      [Part.title s, .validator s, .columns s, .statements s, .listing s].flatMap
        (Part.code options t) := by
    rw [List.flatMap_def, ← List.eq_map_of_mapM hsections]
    intro s code hcode
    obtain ⟨checks, hchecks, hcode⟩ := Except.bind_eq_ok_iff.mp hcode
    rw [← schemaSection_eq, hchecks]
    exact (Except.ok.inj hcode).symm
  have hversions : migrations = t.migrations.map (versioned options.dialect t) := by
    refine List.eq_map_of_mapM hmigrations ?_
    intro m version hversion
    obtain ⟨statements, hstatements, hversion⟩ := Except.bind_eq_ok_iff.mp hversion
    obtain rfl := Except.ok.inj hversion
    rw [versioned, ← List.eq_map_of_mapM hstatements]
    intro op sql hsql
    rw [hsql]
    rfl
  obtain rfl := Except.ok.inj h
  rw [hschemas, hversions]
  simp [parts, Part.code, List.flatMap_append, List.flatMap_assoc]

/-- The text of a module is that of its parts, and so are its lines. -/
theorem server_eq_parts {options : EmitOptions} {t : Tree} {artifacts : Artifacts}
    (h : t.emit options = .ok artifacts) :
    artifacts.server = String.join ((parts t).map (Part.text options t)) ∧
      endedLines artifacts.server =
        (parts t).flatMap fun p => endedLines (p.text options t) := by
  obtain ⟨-, ps, hps, hserver⟩ := Tree.exists_pieces_of_emit h
  have hjoin : artifacts.server = String.join ((parts t).map (Part.text options t)) := by
    rw [hserver, pieces_eq_parts hps]
    exact render_flatMap fun p _ => p.level_code options t
  refine ⟨hjoin, ?_⟩
  rw [hjoin, endedLines_join, List.flatMap_map]
  intro text htext
  obtain ⟨p, -, rfl⟩ := List.mem_map.mp htext
  exact wholeLines_renderFrom 0 _

end Server

/-! ## Lines that may differ -/

def Statements.named (s : Statements) : List (String × Option String) :=
  [("insert", some s.insert), ("update", s.update), ("delete", some s.delete),
    ("findByKey", some s.findByKey), ("createTable", some s.createTable)]

namespace Server

open Code Text

variable {o₁ o₂ : EmitOptions} {t : Tree}

/-- The lines of a part that may differ under two options, as they read under
the first and under the second. -/
inductive Part.Varies (o₁ o₂ : EmitOptions) (t : Tree) : Part → String → String → Prop where
  | importing : Varies o₁ o₂ t .importing
      (r"import { " ++ String.intercalate ", " runtimeImports ++ r" } from "
        ++ string o₁.runtimeModule ++ ";")
      (r"import { " ++ String.intercalate ", " runtimeImports ++ r" } from "
        ++ string o₂.runtimeModule ++ ";")
  | statement {s : Schema} {name sql₁ sql₂ : String}
      (first : (name, some sql₁) ∈ (Statements.ofSchema o₁.dialect s).named)
      (second : (name, some sql₂) ∈ (Statements.ofSchema o₂.dialect s).named) :
      Varies o₁ o₂ t (.statements s)
        (indentation 1 ++ (name ++ ": " ++ string sql₁ ++ ","))
        (indentation 1 ++ (name ++ ": " ++ string sql₂ ++ ","))
  | placeholder (s : Schema) : Varies o₁ o₂ t (.listing s)
      (indentation 2 ++
        ("clauses.push(`\"${column}\"=" ++ lastPlaceholder o₁.dialect ++ "`);"))
      (indentation 2 ++
        ("clauses.push(`\"${column}\"=" ++ lastPlaceholder o₂.dialect ++ "`);"))
  | migration {m : Migration} {op : Operation} {sql₁ sql₂ : String} (listed : m ∈ t.migrations)
      (operation : op ∈ m.operations)
      (first : op.statement o₁.dialect t m.version = .ok sql₁)
      (second : op.statement o₂.dialect t m.version = .ok sql₂) :
      Varies o₁ o₂ t .migrations
        (indentation 3 ++ (string sql₁ ++ ",")) (indentation 3 ++ (string sql₂ ++ ","))

theorem matches_importing : Matches (Part.Varies o₁ o₂ t .importing) 0 [importLine o₁]
    [importLine o₂] := by
  have hline (options : EmitOptions) : OneLine (r"import { " ++ String.intercalate ", "
      runtimeImports ++ r" } from " ++ string options.runtimeModule ++ ";") :=
    OneLine.append (OneLine.append (List.ne_of_all_bne rfl) (oneLine_quoted _))
      (List.ne_of_all_bne rfl)
  refine matches_line (hline o₁) (hline o₂) ?_
  rw [lineText_zero, lineText_zero]
  exact .importing

def statementLine (entry : String × Option String) : Piece :=
  .line (entry.1 ++ ": " ++ entry.2.elim "null" string ++ ",")

theorem statementsObject_eq (schema : String) (s : Statements) :
    statementsObject schema s =
      block ("export const " ++ statementsName schema ++ r" = Object.freeze({")
        (s.named.map statementLine) r"});" := by
  obtain ⟨insert, update, delete, findByKey, createTable⟩ := s
  cases update <;> rfl

theorem oneLine_of_mem_named {s : Statements} {entry : String × Option String}
    (h : entry ∈ s.named) : OneLine entry.1 := by
  simp only [Statements.named, List.mem_cons, List.not_mem_nil, or_false] at h
  rcases h with rfl | rfl | rfl | rfl | rfl
  all_goals exact List.ne_of_all_bne rfl

/-- Whether two statements stand under one name, and both are there or none. -/
structure Counterparts (s₁ s₂ : Statements) (entry₁ entry₂ : String × Option String) : Prop where
  first : entry₁ ∈ s₁.named
  second : entry₂ ∈ s₂.named
  name : entry₁.1 = entry₂.1
  isSome : entry₁.2.isSome = entry₂.2.isSome

/-- The statements of two dialects stand under the same names and in the same
order. -/
theorem counterparts_named {s₁ s₂ : Statements} (h : s₁.update.isSome = s₂.update.isSome) :
    List.Forall₂ (Counterparts s₁ s₂) s₁.named s₂.named := by
  have hmem₁ : ∀ entry ∈ s₁.named, entry ∈ s₁.named := fun _ hentry => hentry
  have hmem₂ : ∀ entry ∈ s₂.named, entry ∈ s₂.named := fun _ hentry => hentry
  simp only [Statements.named, List.forall_mem_cons] at hmem₁ hmem₂
  obtain ⟨insert₁, update₁, delete₁, find₁, create₁, -⟩ := hmem₁
  obtain ⟨insert₂, update₂, delete₂, find₂, create₂, -⟩ := hmem₂
  exact .cons ⟨insert₁, insert₂, rfl, rfl⟩ (.cons ⟨update₁, update₂, rfl, h⟩
    (.cons ⟨delete₁, delete₂, rfl, rfl⟩ (.cons ⟨find₁, find₂, rfl, rfl⟩
      (.cons ⟨create₁, create₂, rfl, rfl⟩ .nil))))

/-- Whether there is an update does not depend on the dialect: there is one
where the schema has a field to set. -/
theorem isSome_update (d₁ d₂ : Dialect) (s : Schema) :
    (Statements.ofSchema d₁ s).update.isSome = (Statements.ofSchema d₂ s).update.isSome := by
  have hupdate (d : Dialect) :
      (Statements.ofSchema d s).update.isSome = !s.dataColumns.isEmpty := by
    unfold Statements.ofSchema
    cases hcolumns : s.dataColumns.isEmpty <;> simp [hcolumns]
  rw [hupdate, hupdate]

theorem matches_statementLine {s : Schema} {entry₁ entry₂ : String × Option String}
    (h : Counterparts (.ofSchema o₁.dialect s) (.ofSchema o₂.dialect s) entry₁ entry₂) :
    Matches (Part.Varies o₁ o₂ t (.statements s)) 1 [statementLine entry₁]
      [statementLine entry₂] := by
  obtain ⟨h₁, h₂, hname, hsome⟩ := h
  obtain ⟨name, sql₁⟩ := entry₁
  obtain ⟨_, sql₂⟩ := entry₂
  obtain rfl := hname
  have hline (sql : String) : OneLine (name ++ ": " ++ string sql ++ ",") :=
    (((oneLine_of_mem_named h₁).append (List.ne_of_all_bne rfl)).append (oneLine_quoted sql)).append
      (List.ne_of_all_bne rfl)
  match sql₁, sql₂, hsome with
  | none, none, _ => exact matches_refl fun _ => rfl
  | some sql₁, some sql₂, _ =>
      refine matches_line (hline sql₁) (hline sql₂) ?_
      rw [lineText_of_ne (by simp), lineText_of_ne (by simp)]
      exact .statement h₁ h₂

/-- The objects of statements differ in the lines of statements alone. -/
theorem matches_statements (s : Schema) : Matches (Part.Varies o₁ o₂ t (.statements s)) 0
    (statementsObject s.name (.ofSchema o₁.dialect s))
    (statementsObject s.name (.ofSchema o₂.dialect s)) := by
  rw [statementsObject_eq, statementsObject_eq]
  refine Matches.block ?_
  rw [List.map_eq_flatMap, List.map_eq_flatMap]
  exact matches_flatMap
    ((counterparts_named (isSome_update ..)).imp fun _ _ => matches_statementLine)

/-- The builders of list queries differ in one line, that with the placeholder
of a filter. -/
theorem matches_listing (s : Schema) : Matches (Part.Varies o₁ o₂ t (.listing s)) 0
    (listBuilder o₁.dialect s.name) (listBuilder o₂.dialect s.name) := by
  have hline (d : Dialect) :
      OneLine ("clauses.push(`\"${column}\"=" ++ lastPlaceholder d ++ "`);") := by
    cases d <;> exact List.ne_of_all_bne rfl
  have hplaceholder : Matches (Part.Varies o₁ o₂ t (.listing s)) 2
      [.line ("clauses.push(`\"${column}\"=" ++ lastPlaceholder o₁.dialect ++ "`);")]
      [.line ("clauses.push(`\"${column}\"=" ++ lastPlaceholder o₂.dialect ++ "`);")] := by
    refine matches_line (hline _) (hline _) ?_
    rw [lineText_of_ne (by simp), lineText_of_ne (by simp)]
    exact .placeholder s
  have hfilters : Matches (Part.Varies o₁ o₂ t (.listing s)) 1 (filterCode o₁.dialect s.name)
      (filterCode o₂.dialect s.name) :=
    Matches.block ((matches_refl fun _ => rfl).append (.cons (matches_refl fun _ => rfl)
      hplaceholder))
  exact Matches.block ((((matches_refl fun _ => rfl).append hfilters).append
    (matches_refl fun _ => rfl)).append (matches_refl fun _ => rfl) |>.append
      (matches_refl fun _ => rfl))

/-- An operation has a statement in every dialect if code can be generated, for
only a table without a schema has none. -/
theorem exists_statement (h : t.Emittable) {m : Migration} (hm : m ∈ t.migrations)
    {op : Operation} (hop : op ∈ m.operations) (d : Dialect) :
    ∃ sql, op.statement d t m.version = .ok sql := by
  cases op with
  | addColumn | dropColumn | dropTable => exact ⟨_, rfl⟩
  | createTable table =>
      have hschema := Tree.isSome_schema?.mpr (List.mem_map.mpr (h.migrations m hm table hop))
      obtain ⟨s, hs⟩ := Option.isSome_iff_exists.mp hschema
      exact ⟨Statements.creation d s, by rw [Operation.statement, hs]⟩

theorem matches_migrationObject (h : t.Emittable) {m : Migration} (hm : m ∈ t.migrations) :
    Matches (Part.Varies o₁ o₂ t .migrations) 1
      (migrationObject (versioned o₁.dialect t m).1 (versioned o₁.dialect t m).2)
      (migrationObject (versioned o₂.dialect t m).1 (versioned o₂.dialect t m).2) := by
  have hline (sql : String) : OneLine (string sql ++ ",") :=
    (oneLine_quoted sql).append (List.ne_of_all_bne rfl)
  refine Matches.block (.cons (matches_refl fun _ => rfl) (Matches.block ?_))
  rw [versioned, versioned, List.map_map, List.map_map, List.map_eq_flatMap, List.map_eq_flatMap]
  refine matches_flatMap (List.forall₂_same.mpr fun op hop => ?_)
  obtain ⟨sql₁, h₁⟩ := exists_statement h hm hop o₁.dialect
  obtain ⟨sql₂, h₂⟩ := exists_statement h hm hop o₂.dialect
  simp only [Function.comp_apply, h₁, h₂]
  refine matches_line (hline _) (hline _) ?_
  rw [lineText_of_ne (by simp), lineText_of_ne (by simp)]
  exact .migration hm hop h₁ h₂

/-- The lists of migrations differ in the lines of statements alone. -/
theorem matches_migrations (h : t.Emittable) : Matches (Part.Varies o₁ o₂ t .migrations) 0
    (migrationList (t.migrations.map (versioned o₁.dialect t)))
    (migrationList (t.migrations.map (versioned o₂.dialect t))) := by
  unfold migrationList
  rw [List.isEmpty_map, List.isEmpty_map]
  split
  · exact matches_refl fun _ => rfl
  · refine Matches.block ?_
    rw [List.flatMap_map, List.flatMap_map]
    exact matches_flatMap (List.forall₂_same.mpr fun m hm => matches_migrationObject h hm)

/-- The same part under two options. -/
theorem Part.matches_code (h : t.Emittable) (p : Part) :
    Matches (p.Varies o₁ o₂ t) 0 (p.code o₁ t) (p.code o₂ t) := by
  have hblank {R : String → String → Prop} : Matches R 0 [.blank] [.blank] :=
    matches_refl fun _ => rfl
  cases p with
  | importing => exact matches_importing
  | statements s => exact matches_statements s
  | listing s => exact hblank.append (matches_listing s)
  | migrations => exact hblank.append (matches_migrations h)
  | header | title | validator | columns | actions | tables | handlers =>
      exact matches_refl (level_code o₁ t _)

end Server

namespace Tree

open Server Code

/-- What the options of the generation reach. Under all options code is
generated from the same trees, and otherwise the error is the same. The type
declarations do not depend on them. A server module is made of the same parts
under all options, and all but four kinds of parts are the same. In those, the
lines are the same but for the line that imports the helpers, the lines of SQL
statements, and the line with the placeholder of a list query. So two modules
have as many lines. -/
theorem emit_options (t : Tree) (o₁ o₂ : EmitOptions) :
    ((∃ artifacts, t.emit o₁ = .ok artifacts) ↔ ∃ artifacts, t.emit o₂ = .ok artifacts) ∧
    (∀ e, t.emit o₁ = .error e ↔ t.emit o₂ = .error e) ∧
    ∀ a₁ a₂, t.emit o₁ = .ok a₁ → t.emit o₂ = .ok a₂ →
      a₁.types = a₂.types ∧
      a₁.server = String.join ((parts t).map (Part.text o₁ t)) ∧
      a₂.server = String.join ((parts t).map (Part.text o₂ t)) ∧
      (∀ p : Part, p.isFixed = true → p.text o₁ t = p.text o₂ t) ∧
      (∀ p ∈ parts t, SameBut (p.Varies o₁ o₂ t) (endedLines (p.text o₁ t))
        (endedLines (p.text o₂ t))) ∧
      SameBut (fun l₁ l₂ => ∃ p ∈ parts t, p.Varies o₁ o₂ t l₁ l₂) (endedLines a₁.server)
        (endedLines a₂.server) ∧
      (endedLines a₁.server).length = (endedLines a₂.server).length := by
  have hreports := (t.reports_emit o₁).ok_iff.trans (t.reports_emit o₂).ok_iff.symm
  refine ⟨hreports, ?_, ?_⟩
  · intro e
    rw [(t.reports_emit o₁).error_iff, (t.reports_emit o₂).error_iff]
  · intro a₁ a₂ h₁ h₂
    have hemittable := emittable_of_emit h₁
    have htypes {o : EmitOptions} {a : Artifacts} (h : t.emit o = .ok a) : a.types = t.types := by
      obtain ⟨_, -, h⟩ := Except.bind_eq_ok_iff.mp h
      obtain ⟨m, -, h⟩ := Except.bind_eq_ok_iff.mp h
      obtain rfl := Except.ok.inj h
      rfl
    -- Part by part the two texts differ in varying lines only, and so do their joins.
    have hparts : ∀ p ∈ parts t, SameBut (p.Varies o₁ o₂ t) (endedLines (p.text o₁ t))
        (endedLines (p.text o₂ t)) := fun p _ => (p.matches_code hemittable).lines
    obtain ⟨hserver₁, hlines₁⟩ := server_eq_parts h₁
    obtain ⟨hserver₂, hlines₂⟩ := server_eq_parts h₂
    have hlines : SameBut (fun l₁ l₂ => ∃ p ∈ parts t, p.Varies o₁ o₂ t l₁ l₂)
        (endedLines a₁.server) (endedLines a₂.server) := by
      rw [hlines₁, hlines₂]
      have hsame : List.Forall₂ (fun p q => p = q ∧ p ∈ parts t) (parts t) (parts t) :=
        List.forall₂_same.mpr fun p hp => ⟨rfl, hp⟩
      refine List.rel_flatMap hsame ?_
      rintro p _ ⟨rfl, hp⟩
      exact (hparts p hp).imp fun _ _ => Or.imp_right fun hvaries => ⟨p, hp, hvaries⟩
    refine ⟨(htypes h₁).trans (htypes h₂).symm, hserver₁, hserver₂, ?_, hparts, hlines,
      hlines.length_eq⟩
    intro p hp
    cases p with
    | importing | statements | listing | migrations => cases hp
    | header | title | validator | columns | actions | tables | handlers => rfl

def pricedItem : Schema := ⟨"Item", [⟨"price", "Float", false, []⟩], 1⟩

def itemTree : Tree where
  schemas := [pricedItem]
  actions := [⟨"list", [], "return []", 3⟩]
  routes := [⟨.get, "/items", [.action "list"], 4⟩]
  migrations := [⟨"1", [.createTable "Item"], 5⟩]

/-- Two dialects have other statements, but the handlers are the same and the
modules have as many lines. -/
theorem emit_options_dialects :
    (Statements.ofSchema .sqlite pricedItem).insert ≠
      (Statements.ofSchema .postgres pricedItem).insert ∧
    ∃ a₁ a₂ : Artifacts,
      itemTree.emit {} = .ok a₁ ∧ itemTree.emit ⟨.postgres, "runtime"⟩ = .ok a₂ ∧
      Part.handlers.text {} itemTree = Part.handlers.text ⟨.postgres, "runtime"⟩ itemTree ∧
      (endedLines a₁.server).length = (endedLines a₂.server).length := by
  have hviolations : itemTree.violations = [] := by decide +kernel
  obtain ⟨a₁, h₁⟩ := (itemTree.reports_emit {}).ok_iff.mpr hviolations
  obtain ⟨a₂, h₂⟩ := (itemTree.reports_emit ⟨.postgres, "runtime"⟩).ok_iff.mpr hviolations
  obtain ⟨-, -, -, hfixed, -, -, hlength⟩ :=
    (emit_options itemTree {} ⟨.postgres, "runtime"⟩).2.2 a₁ a₂ h₁ h₂
  exact ⟨by decide +kernel, a₁, a₂, h₁, h₂, hfixed .handlers rfl, hlength⟩

end Tree

end BlockLang
