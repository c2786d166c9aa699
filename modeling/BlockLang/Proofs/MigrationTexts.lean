import BlockLang.Proofs.EmissionChecks
import Mathlib.Data.List.Forall2

/-! # What the statements of a migration say

A statement is cut at the quotes of its names, and what stands outside of them is kept as it is.
So the statement of an operation is seen to be a fixed text around the names of its table and of
its column, whatever characters the names hold, and the operation can be read back from it.
-/

namespace BlockLang

namespace Sql

/-! ## Segments -/

inductive Segment where
  /-- What stands outside of quotes. -/
  | text (text : String)
  /-- A name between quotes. -/
  | name (name : String)
  /-- A name that lacks its closing quote. -/
  | unclosed
  deriving DecidableEq, Repr

inductive Place where
  | outside (read : List Char)
  | inside (read : List Char)
  /-- Behind a quote inside of a name, which ends the name unless another quote follows. -/
  | quote (read : List Char)

def Segment.ofText (read : List Char) : List Segment :=
  if read.isEmpty then [] else [.text (String.ofList read)]

def segmentsFrom : Place → List Char → List Segment
  | .outside read, [] => Segment.ofText read
  | .inside _, [] => [.unclosed]
  | .quote read, [] => [.name (String.ofList read)]
  | .outside read, c :: rest =>
    if c = '"' then Segment.ofText read ++ segmentsFrom (.inside []) rest
    else segmentsFrom (.outside (read ++ [c])) rest
  | .inside read, c :: rest =>
    if c = '"' then segmentsFrom (.quote read) rest else segmentsFrom (.inside (read ++ [c])) rest
  | .quote read, c :: rest =>
    if c = '"' then segmentsFrom (.inside (read ++ [c])) rest
    else .name (String.ofList read) :: segmentsFrom (.outside [c]) rest

def segments (statement : String) : List Segment := segmentsFrom (.outside []) statement.toList

theorem segmentsFrom_outside {cs : List Char} (h : '"' ∉ cs) (read rest : List Char) :
    segmentsFrom (.outside read) (cs ++ rest) = segmentsFrom (.outside (read ++ cs)) rest := by
  induction cs generalizing read with
  | nil => rw [List.append_nil, List.nil_append]
  | cons c cs ih =>
      have hc : c ≠ '"' := (List.ne_of_not_mem_cons h).symm
      rw [List.cons_append, segmentsFrom, if_neg hc, ih (List.not_mem_of_not_mem_cons h),
        List.append_assoc]
      rfl

/-- Doubled quotes are read as quotes of the name, so a name never ends inside
of itself. -/
theorem segmentsFrom_doubleQuotes (read cs rest : List Char) :
    segmentsFrom (.inside read) (doubleQuotes cs ++ rest) =
      segmentsFrom (.inside (read ++ cs)) rest := by
  induction cs generalizing read with
  | nil => rw [List.append_nil]; rfl
  | cons c cs ih =>
      have hread : read ++ c :: cs = read ++ [c] ++ cs := by simp
      rw [hread, ← ih]
      by_cases hc : c = '"'
      · subst hc
        rfl
      · have hcons : doubleQuotes (c :: cs) = c :: doubleQuotes cs := by simp [doubleQuotes, hc]
        rw [hcons, List.cons_append, segmentsFrom, if_neg hc]

theorem segmentsFrom_quote (read : List Char) {rest : List Char} (h : rest.head? ≠ some '"') :
    segmentsFrom (.quote read) rest =
      .name (String.ofList read) :: segmentsFrom (.outside []) rest := by
  cases rest with
  | nil => rfl
  | cons c rest =>
      have hc : c ≠ '"' := fun hc => h (congrArg some hc)
      rw [segmentsFrom, if_neg hc, segmentsFrom, if_neg hc]
      rfl

/-- A quoted identifier between texts is a segment of its own. -/
theorem segments_identifier {before after : String} (name : String) (hb : '"' ∉ before.toList)
    (ha : after.toList.head? ≠ some '"') :
    segments (before ++ identifier name ++ after) =
      Segment.ofText before.toList ++ .name name :: segments after := by
  have hchars : (before ++ identifier name ++ after).toList =
      before.toList ++ '"' :: (doubleQuotes name.toList ++ '"' :: after.toList) := by
    simp [identifier]
  have hopen : ∀ rest, segmentsFrom (.outside before.toList) ('"' :: rest) =
      Segment.ofText before.toList ++ segmentsFrom (.inside []) rest := fun _ => rfl
  have hclose : ∀ read rest, segmentsFrom (.inside read) ('"' :: rest) =
      segmentsFrom (.quote read) rest := fun _ _ => rfl
  rw [segments, hchars, segmentsFrom_outside hb, List.nil_append, hopen,
    segmentsFrom_doubleQuotes, List.nil_append, hclose, segmentsFrom_quote _ ha,
    String.ofList_toList]
  rfl

theorem segments_columnType (d : Dialect) (k : Kind) :
    segments (" " ++ d.columnType k) = [.text (" " ++ d.columnType k)] := by
  cases d <;> cases k <;> rfl

end Sql

open Sql

/-! ## Operations -/

namespace Operation

inductive Target where
  | addColumn (table column : String)
  | dropColumn (table column : String)
  | createTable (table : String)
  | dropTable (table : String)
  deriving DecidableEq, Repr

def target : Operation → Target
  | addColumn table column _ => .addColumn table column
  | dropColumn table column => .dropColumn table column
  | createTable table => .createTable table
  | dropTable table => .dropTable table

/-- The operation that a statement is the text of. -/
def Target.ofSegments? : List Segment → Option Target
  | [.text "ALTER TABLE ", .name table, .text " ADD COLUMN ", .name column, .text _] =>
    some (.addColumn table column)
  | [.text "ALTER TABLE ", .name table, .text " DROP COLUMN ", .name column] =>
    some (.dropColumn table column)
  | .text "CREATE TABLE IF NOT EXISTS " :: .name table :: _ => some (.createTable table)
  | [.text "DROP TABLE IF EXISTS ", .name table] => some (.dropTable table)
  | _ => none

/-- Whether a statement is that of an operation: the one of the schema for
creating a table, and else a fixed text around its names. -/
def Lowers (d : Dialect) (t : Tree) : Operation → String → Prop
  | addColumn table column typeName, statement =>
    segments statement = [.text "ALTER TABLE ", .name table, .text " ADD COLUMN ", .name column,
      .text (" " ++ d.columnType (.ofTypeName typeName))]
  | dropColumn table column, statement =>
    segments statement = [.text "ALTER TABLE ", .name table, .text " DROP COLUMN ", .name column]
  | createTable table, statement =>
    ∃ schema, t.schema? table = some schema ∧
      statement = (Statements.ofSchema d schema).createTable
  | dropTable table, statement =>
    segments statement = [.text "DROP TABLE IF EXISTS ", .name table]

variable {d : Dialect} {t : Tree} {o : Operation} {statement : String}

/-- Each operation becomes its own kind of statement, in which the names are
segments and all else is fixed. -/
theorem lowers_of_statement {version : String} (h : o.statement d t version = .ok statement) :
    o.Lowers d t statement := by
  cases o with
  | addColumn table column typeName =>
      obtain rfl := Except.ok.inj h
      -- All that stands behind a name is one text, so that one name is read at a time.
      have htext : "ALTER TABLE " ++ identifier table ++ " ADD COLUMN " ++ identifier column ++ " "
          ++ d.columnType (.ofTypeName typeName) = "ALTER TABLE " ++ identifier table
          ++ (" ADD COLUMN " ++ identifier column
            ++ (" " ++ d.columnType (.ofTypeName typeName))) := by
        simp only [String.append_assoc]
      rw [Lowers, htext, segments_identifier table (by decide) (by simp),
        segments_identifier column (by decide) (by simp), segments_columnType]
      rfl
  | dropColumn table column =>
      obtain rfl := Except.ok.inj h
      rw [Lowers, String.append_assoc, segments_identifier table (by decide) (by simp),
        ← String.append_empty (s := " DROP COLUMN " ++ identifier column),
        segments_identifier column (by decide) (by decide)]
      rfl
  | createTable table =>
      rw [Operation.statement] at h
      split at h
      next schema hschema => exact ⟨schema, hschema, (Except.ok.inj h).symm⟩
      next => cases h
  | dropTable table =>
      obtain rfl := Except.ok.inj h
      rw [Lowers, ← String.append_empty (s := "DROP TABLE IF EXISTS " ++ identifier table),
        segments_identifier table (by decide) (by decide)]
      rfl

/-- The statement that creates a table starts with a fixed text and the name of
the table. -/
theorem exists_segments_creation (d : Dialect) (s : Schema) :
    ∃ rest, segments (Statements.creation d s) =
      .text "CREATE TABLE IF NOT EXISTS " :: .name s.name :: rest := by
  have htext : Statements.creation d s = "CREATE TABLE IF NOT EXISTS " ++ identifier s.name
      ++ (" (" ++ (String.intercalate ", "
        (d.keyDefinition :: s.dataFields.map (Statements.columnDefinition d)) ++ ")")) := by
    unfold Statements.creation
    simp only [String.append_assoc]
  rw [htext, segments_identifier s.name (by decide) (by simp)]
  exact ⟨_, rfl⟩

/-- The operation is read back from its statement, but for the type of a column,
which is not a part of it. -/
theorem Lowers.ofSegments?_eq (h : o.Lowers d t statement) :
    Target.ofSegments? (segments statement) = some o.target := by
  cases o with
  | addColumn | dropColumn | dropTable =>
      rw [show segments statement = _ from h]
      rfl
  | createTable table =>
      obtain ⟨schema, hschema, rfl⟩ := h
      obtain ⟨rest, hrest⟩ := exists_segments_creation d schema
      have hname : schema.name = table := by simpa using List.find?_some hschema
      rw [show (Statements.ofSchema d schema).createTable = Statements.creation d schema from rfl,
        hrest, hname]
      rfl

def created? : Operation → Option String
  | createTable table => some table
  | addColumn .. | dropColumn .. | dropTable _ => none

end Operation

namespace Tree

/-- The first of the tables that operations create which is no schema of the
tree. -/
def unknownTable? (t : Tree) (os : List Operation) : Option String :=
  (os.filterMap Operation.created?).find? (· ∉ t.schemas.map Schema.name)

/-- Of some operations, the first that fails is the one that creates the first
table without a schema. -/
theorem head?_violations (t : Tree) (version : String) (os : List Operation) :
    (os.flatMap (Operation.violations t version)).head? =
      (t.unknownTable? os).map (.unknownTable version) := by
  induction os with
  | nil => rfl
  | cons o os ih =>
      rw [List.flatMap_cons, unknownTable?]
      cases o with
      | addColumn | dropColumn | dropTable => exact ih
      | createTable table =>
          have hcreated : (Operation.createTable table).created? = some table := rfl
          rw [List.filterMap_cons_some hcreated, List.find?_cons, Operation.violations]
          by_cases h : table ∈ t.schemas.map Schema.name
          · rw [if_pos h, List.nil_append, ih]
            simp only [h, not_true_eq_false, decide_false]
            rfl
          · rw [if_neg h]
            simp only [h, not_false_eq_true, decide_true]
            rfl

end Tree

/-! ## Migrations -/

namespace Migration

variable {d : Dialect} {t : Tree} {m : Migration} {statements : List String}

theorem forall₂_lowers (h : m.statements d t = .ok statements) :
    List.Forall₂ (Operation.Lowers d t) m.operations statements :=
  (List.forall₂_of_mapM h).imp fun _ _ => Operation.lowers_of_statement

/-- The operations are read back from the statements, whatever the schemas and
the dialect are. -/
theorem targets_of_statements (h : m.statements d t = .ok statements) :
    statements.map (Operation.Target.ofSegments? ∘ segments) =
      m.operations.map (some ∘ Operation.target) := by
  have hlowers := forall₂_lowers h
  generalize m.operations = os at hlowers
  clear h
  induction hlowers with
  | nil => rfl
  | cons hfirst _ ih =>
      rw [List.map_cons, List.map_cons, ih, Function.comp_apply, hfirst.ofSegments?_eq]
      rfl

/-- A migration becomes one statement for each of its operations, in their
order, or there is a first table to create that is no schema. Names stand in the
statements as names only, so the statements tell the operations with their
tables and columns. -/
theorem statements_lower_operations (d : Dialect) (t : Tree) (m : Migration) :
    (∀ table, t.unknownTable? m.operations = some table →
      m.statements d t = .error (.unknownTable m.version table)) ∧
    (t.unknownTable? m.operations = none → ∃ statements, m.statements d t = .ok statements ∧
      statements.length = m.operations.length ∧
      List.Forall₂ (Operation.Lowers d t) m.operations statements ∧
      ∀ (d' : Dialect) (t' : Tree) (m' : Migration), m'.statements d' t' = .ok statements →
        m'.operations.map Operation.target = m.operations.map Operation.target) := by
  have hreports := m.reports_statements d t
  constructor
  · intro table htable
    rw [hreports.error_iff, Tree.head?_violations, htable]
    rfl
  · intro hnone
    have hviolations := Tree.head?_violations t m.version m.operations
    rw [hnone, Option.map_none, List.head?_eq_none_iff] at hviolations
    obtain ⟨statements, hstatements⟩ := hreports.ok_iff.mpr hviolations
    refine ⟨statements, hstatements, (forall₂_lowers hstatements).length_eq.symm,
      forall₂_lowers hstatements, fun d' t' m' h' => ?_⟩
    have htargets := (targets_of_statements h').symm.trans (targets_of_statements hstatements)
    rw [← List.map_map, ← List.map_map] at htargets
    exact List.map_injective_iff.mpr (fun _ _ => Option.some.inj) htargets

/-- A quote in the name of a table stays in the name; a table without a schema
is refused. -/
theorem statements_lower_operations_quote :
    (∃ statements,
      Migration.statements .postgres {} ⟨"1", [.addColumn "a\"; b" "c" "Int"], 1⟩ = .ok statements ∧
      List.Forall₂ (Operation.Lowers .postgres {}) [.addColumn "a\"; b" "c" "Int"] statements) ∧
    Migration.statements .sqlite {} ⟨"2", [.dropTable "a", .createTable "b"], 1⟩ =
      .error (.unknownTable "2" "b") := by
  constructor
  · obtain ⟨statements, hstatements, -, hlowers, -⟩ := (statements_lower_operations .postgres {}
      ⟨"1", [.addColumn "a\"; b" "c" "Int"], 1⟩).2 rfl
    exact ⟨statements, hstatements, hlowers⟩
  · exact (statements_lower_operations .sqlite {}
      ⟨"2", [.dropTable "a", .createTable "b"], 1⟩).1 "b" (by decide)

end Migration

end BlockLang
