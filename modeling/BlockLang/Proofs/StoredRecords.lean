import BlockLang.Proofs.SqlText
import BlockLang.Proofs.ValidatorAgreement
import BlockLang.Server.Types

/-! # Records that fit their declarations

The same field is declared to the validation, in the type declarations and in the table. What the
validation stores for it has the declared type, and is null only where the table lets it be null.
Types and columns are read from the generated texts.
-/

namespace BlockLang

/-! ## Types of declarations -/

/-- A type of the type declarations, as it is read from its text. -/
inductive ValueType where
  | string
  | number
  | boolean
  | unknown
  | literals (values : List String)
  /-- The name of another declaration, or what is no type at all. -/
  | other
  deriving DecidableEq, Repr

namespace ValueType

def literals? : List Char → Option (List String)
  | '"' :: rest =>
    match Script.literal? rest with
    | none => none
    | some (value, size) =>
      match hmore : rest.drop size with
      | [] => some [String.ofList value]
      | ' ' :: '|' :: ' ' :: more =>
        have : more.length < rest.length + 1 := by
          have hlength := congrArg List.length hmore
          simp only [List.length_drop, List.length_cons] at hlength
          omega
        (literals? more).map (String.ofList value :: ·)
      | _ => none
  | _ => none
termination_by cs => cs.length

def read (text : String) : ValueType :=
  if text = "string" then .string
  else if text = "number" then .number
  else if text = "boolean" then .boolean
  else if text = "unknown" then .unknown
  else match literals? text.toList with
    | some values => .literals values
    | none => .other

def Admits : ValueType → Json → Prop
  | string, value => ∃ s, value = .text s
  | number, value => value.isNumber = true
  | boolean, value => ∃ b, value = .bool b
  | unknown, _ => True
  | literals values, value => ∃ s ∈ values, value = .text s
  | other, _ => False

/-- A literal is read up to its closing quote. -/
theorem literals?_string (value : String) (rest : List Char) :
    (rest = [] → literals? ((Code.string value).toList ++ rest) = some [value]) ∧
      ∀ more, rest = [' ', '|', ' '] ++ more →
        literals? ((Code.string value).toList ++ rest) = (literals? more).map (value :: ·) := by
  have htext : (Code.string value).toList ++ rest =
      '"' :: (Text.escape value.toList ++ '"' :: rest) := by
    simp [Code.string, Text.quoted]
  have hdrop : (Text.escape value.toList ++ '"' :: rest).drop
      ((Text.escape value.toList).length + 1) = rest := by
    rw [← List.drop_drop, List.drop_left]
    rfl
  rw [htext, literals?, Script.literal?_escape]
  simp only [String.ofList_toList]
  constructor
  · rintro rfl
    split <;> simp_all
  · rintro more rfl
    split <;> simp_all

/-- A union of literals is read back, whatever quotes and bars the values hold
themselves. -/
theorem literals?_union {values : List String} (h : values ≠ []) :
    literals? (String.intercalate " | " (values.map Code.string)).toList = some values := by
  induction values with
  | nil => exact absurd rfl h
  | cons value rest ih =>
      cases rest with
      | nil => simpa using (literals?_string value []).1 rfl
      | cons second rest =>
          have hmore := ih (List.cons_ne_nil second rest)
          have hbar : " | ".toList = [' ', '|', ' '] := rfl
          rw [List.map_cons] at hmore ⊢
          rw [List.map_cons, String.intercalate_cons_cons, String.toList_append,
            String.toList_append, List.append_assoc, hbar,
            (literals?_string value _).2 _ rfl, hmore, Option.map_some]

theorem read_union {values : List String} (h : values ≠ []) :
    read (String.intercalate " | " (values.map Code.string)) = .literals values := by
  have hliterals := literals?_union h
  have hnames : ∀ name ∈ ["string", "number", "boolean", "unknown"],
      literals? name.toList = none := by
    simp [literals?]
  have hne : ∀ name ∈ ["string", "number", "boolean", "unknown"],
      String.intercalate " | " (values.map Code.string) ≠ name := by
    rintro name hname rfl
    rw [hnames _ hname] at hliterals
    cases hliterals
  simp only [List.forall_mem_cons] at hne
  simp only [read, hne, if_false, hliterals]

end ValueType

/-! ## Fields and their values -/

/-- Whether the type of a field is the name of a schema, and no type that is
known. -/
structure Field.Refers (t : Tree) (f : Field) : Prop where
  plain : f.enum? = none
  unknown : Kind.ofTypeName f.typeName = .passthrough
  schema : ∃ s ∈ t.schemas, s.name = f.typeName
  declared : Server.fieldType t f = f.typeName

/-- What the check of a field keeps of the field. -/
theorem Field.check_keeps {schema : String} {f : Field} {c : Check} (h : f.check schema = .ok c) :
    c.field = f.name ∧ c.optional = f.optional ∧ c.kind = f.kind ∧ c.allowed = f.enum? := by
  simp only [Field.check] at h
  split at h
  · simp only [Except.bind_eq_ok_iff] at h
    obtain ⟨pattern, -, format, -, h⟩ := h
    cases h
    exact ⟨rfl, rfl, rfl, rfl⟩
  · cases h
    exact ⟨rfl, rfl, rfl, rfl⟩

namespace Check

/-- A value that is stored is null for nothing given to an optional field, or
comes from a value that all guards accept. -/
theorem apply_eq_ok {c : Check} {given : Option Json} {value : Json}
    (h : c.apply given = .ok value) :
    (value = .null ∧ c.optional = true) ∨
      ∃ j, j ≠ .null ∧ (∀ guard ∈ c.guards, guard.accepts j = true) ∧ value = c.kind.store j := by
  have habsent : c.applyAbsent = .ok value → value = .null ∧ c.optional = true := by
    intro h
    rw [applyAbsent] at h
    split at h
    next hoptional => exact ⟨(Except.ok.inj h).symm, hoptional⟩
    next => cases h
  have hpresent : ∀ j, c.applyPresent j = .ok value →
      (∀ guard ∈ c.guards, guard.accepts j = true) ∧ value = c.kind.store j := by
    intro j h
    rw [applyPresent] at h
    split at h
    next => cases h
    next hnone =>
      rw [List.find?_eq_none] at hnone
      exact ⟨fun guard hguard => by simpa using hnone guard hguard, (Except.ok.inj h).symm⟩
  unfold apply at h
  split at h
  next => exact .inl (habsent h)
  next => exact .inl (habsent h)
  next j hnull => exact .inr ⟨j, by simpa using hnull, hpresent j h⟩

theorem isText_mem_guards {c : Check} (h : c.kind = .text) : .isText ∈ c.guards := by
  simp [guards, textGuards, h]

theorem oneOf_mem_guards {c : Check} (h : c.kind = .text) {values : List String}
    (hvalues : c.allowed = some values) : .oneOf values ∈ c.guards := by
  simp [guards, textGuards, h, hvalues]

theorem isNumber_mem_guards {c : Check} (h : c.kind = .integer ∨ c.kind = .number) :
    .isNumber ∈ c.guards := by
  rcases h with h | h <;> simp [guards, numberGuards, h]

end Check

theorem Json.isNumber_ofDouble (x : Double) : (Json.ofDouble x).isNumber = true := by
  unfold Json.ofDouble
  split <;> rfl

/-- A number is stored for a value that reads as a number, even if the value is
a text. -/
theorem Kind.isNumber_store {kind : Kind} (hkind : kind = .integer ∨ kind = .number) {j : Json}
    (h : Guard.isNumber.accepts j = true) : (kind.store j).isNumber = true := by
  have hread : ∃ x, j.toNumber = .finite x := by
    simp only [Guard.accepts] at h
    split at h
    next x hx => exact ⟨x, hx⟩
    next => cases h
  obtain ⟨x, hx⟩ := hread
  rcases hkind with rfl | rfl <;>
  · simp only [store, hx]
    split
    next hnumber => exact hnumber
    next => exact Json.isNumber_ofDouble x

/-- A value that all guards of a field accept is stored as a value of the
declared type. -/
theorem Field.store_fits (t : Tree) {schema : String} {f : Field} {c : Check}
    (hcheck : f.check schema = .ok c) {j : Json} (hnull : j ≠ .null)
    (hguards : ∀ guard ∈ c.guards, guard.accepts j = true) :
    c.kind.store j ≠ .null ∧
      (f.Refers t ∨ (ValueType.read (Server.fieldType t f)).Admits (c.kind.store j)) := by
  obtain ⟨-, -, hkind, hallowed⟩ := check_keeps hcheck
  have htext : c.kind = .text → ∃ s, j = .text s := by
    intro hc
    have hisText := hguards _ (c.isText_mem_guards hc)
    cases j with
    | text s => exact ⟨s, rfl⟩
    | _ => cases hisText
  -- An enum is a text whatever its declared type; then one case for each kind.
  cases henum : f.enum? with
  | some values =>
      have hc : c.kind = .text := by rw [hkind, Field.kind, henum]; rfl
      obtain ⟨s, rfl⟩ := htext hc
      have hmem : s ∈ values := by
        have honeOf := hguards _ (c.oneOf_mem_guards hc (hallowed.trans henum))
        simpa [Guard.accepts, Guard.onText] using honeOf
      have htype : Server.fieldType t f = String.intercalate " | " (values.map Code.string) := by
        simp only [Server.fieldType, henum]
      rw [htype, ValueType.read_union (List.ne_nil_of_mem hmem), hc]
      exact ⟨hnull, .inr ⟨s, hmem, rfl⟩⟩
  | none =>
      cases hc : c.kind with
      | text =>
          obtain ⟨s, rfl⟩ := htext hc
          have htype : Server.fieldType t f = "string" := by
            simp only [Server.fieldType, henum, ← hkind, hc]
          rw [htype]
          exact ⟨hnull, .inr ⟨s, rfl⟩⟩
      | integer | number =>
          have hnumeric : c.kind = .integer ∨ c.kind = .number := by simp [hc]
          have hnumber := hguards _ (c.isNumber_mem_guards hnumeric)
          have htype : Server.fieldType t f = "number" := by
            simp only [Server.fieldType, henum, ← hkind, hc]
          have hstored := Kind.isNumber_store hnumeric hnumber
          rw [hc] at hstored
          refine ⟨?_, .inr (htype ▸ hstored)⟩
          intro hnone
          rw [hnone] at hstored
          cases hstored
      | boolean =>
          have htype : Server.fieldType t f = "boolean" := by
            simp only [Server.fieldType, henum, ← hkind, hc]
          rw [htype]
          exact ⟨by simp [Kind.store], .inr ⟨j.toBool, rfl⟩⟩
      | passthrough =>
          have hunknown : Kind.ofTypeName f.typeName = .passthrough := by
            rw [← hc, hkind, Field.kind, henum]
            rfl
          refine ⟨hnull, ?_⟩
          -- A type name nothing declares is written `unknown`, which admits every value.
          by_cases hschema : (t.schema? f.typeName).isSome = true
          · have htype : Server.fieldType t f = f.typeName := by
              simp only [Server.fieldType, henum, ← hkind, hc, hschema, if_true]
            refine .inl ⟨henum, hunknown, ?_, htype⟩
            simpa [Tree.schema?] using hschema
          · have htype : Server.fieldType t f = "unknown" := by
              simp only [Server.fieldType, henum, ← hkind, hc, if_neg hschema]
            rw [htype]
            exact .inr trivial

/-! ## Records -/

section

variable {members record result : Json.Members} {checks : List Check}

/-- A run of the validation adds the keys of the checks to a record and keeps
their order. -/
theorem keys_validateMembers (h : validateMembers members record checks = .ok result) :
    (∀ key, key ∈ result.map Prod.fst ↔
      key ∈ record.map Prod.fst ∨ key ∈ checks.map Check.field) ∧
    (record.Ordered → result.Ordered) := by
  induction checks generalizing record with
  | nil =>
      obtain rfl := Except.ok.inj h
      simp
  | cons c rest ih =>
      rw [validateMembers] at h
      split at h
      next => cases h
      next value _ =>
        obtain ⟨hkeys, hordered⟩ := ih h
        refine ⟨fun key => ?_, fun hrecord => hordered hrecord.insert⟩
        rw [hkeys, Json.Members.keys_insert, List.map_cons, List.mem_cons, or_assoc]
        exact or_left_comm

theorem lookup_validateMembers_of_not_mem {key : String}
    (h : validateMembers members record checks = .ok result)
    (hkey : key ∉ checks.map Check.field) : result.lookup key = record.lookup key := by
  induction checks generalizing record with
  | nil => rw [Except.ok.inj h]
  | cons c rest ih =>
      rw [List.map_cons, List.mem_cons, not_or] at hkey
      obtain ⟨hne, hrest⟩ := hkey
      rw [validateMembers] at h
      split at h
      next => cases h
      next => rw [ih h hrest, Json.Members.lookup_insert, if_neg hne]

/-- What a run of the validation stores under a key is what a check of that
field gives. -/
theorem exists_check_of_validateMembers {key : String}
    (h : validateMembers members record checks = .ok result)
    (hkey : key ∈ checks.map Check.field) :
    ∃ c ∈ checks, c.field = key ∧ ∃ value, c.apply (members.lookup key) = .ok value ∧
      result.lookup key = some value := by
  induction checks generalizing record with
  | nil => cases hkey
  | cons c rest ih =>
      rw [validateMembers] at h
      split at h
      next => cases h
      next value hvalue =>
        -- A later check of the same field replaces what an earlier one has stored.
        by_cases hlater : key ∈ rest.map Check.field
        · obtain ⟨c', hc', hstored⟩ := ih h hlater
          exact ⟨c', List.mem_cons_of_mem c hc', hstored⟩
        · obtain rfl : key = c.field := by simpa [hlater] using hkey
          refine ⟨c, List.mem_cons_self, rfl, value, hvalue, ?_⟩
          rw [lookup_validateMembers_of_not_mem h hlater, Json.Members.lookup_insert, if_pos rfl]

end

/-- The checks of a schema are for its fields, one for each and in their
order. -/
theorem Schema.fields_of_checks {s : Schema} {checks : List Check} (h : s.checks = .ok checks) :
    checks.map Check.field = s.fields.map Field.name := by
  have hall : List.Forall₂ (fun f c => f.name = c.field) s.fields checks :=
    (List.forall₂_of_mapM h).imp fun _ _ hc => (Field.check_keeps hc).1.symm
  have hnames : List.Forall₂ (· = ·) (s.fields.map Field.name) (checks.map Check.field) :=
    List.forall₂_map_left_iff.mpr (List.forall₂_map_right_iff.mpr hall)
  rw [List.forall₂_eq_eq_eq] at hnames
  exact hnames.symm

/-- A record that passes the validation of a schema has the names of the fields
as its keys, each once. What it holds for a field that is declared once is null
only if the field is optional, and then no table makes its column required, and
has the declared type otherwise. -/
theorem record_fits_declarations {s : Schema} {checks : List Check}
    (hchecks : s.checks = .ok checks) {input : Json} {record : Json.Members}
    (hrecord : validate checks input = .ok record) (t : Tree) :
    (record.map Prod.fst).Nodup ∧
    (∀ key, key ∈ record.map Prod.fst ↔ key ∈ s.fields.map Field.name) ∧
    ∀ f ∈ s.fields, (∀ g ∈ s.fields, g.name = f.name → g = f) →
      ∃ value, record.lookup f.name = some value ∧
        (value = .null → f.optional = true ∧
          ∀ d, f.name ∉ Sql.requiredColumns (Statements.ofSchema d s).createTable) ∧
        (value ≠ .null →
          f.Refers t ∨ (ValueType.read (Server.fieldType t f)).Admits value) := by
  obtain ⟨members, rfl⟩ : ∃ members, input = .object members := by
    cases input with
    | object members => exact ⟨members, rfl⟩
    | _ => cases hrecord
  obtain ⟨hkeys, hordered⟩ := keys_validateMembers hrecord
  have hfields := s.fields_of_checks hchecks
  refine ⟨(hordered List.Pairwise.nil).nodup, fun key => ?_, fun f hf honce => ?_⟩
  · rw [hkeys, hfields]
    simp
  · have hname : f.name ∈ checks.map Check.field := hfields ▸ List.mem_map_of_mem hf
    obtain ⟨c, hc, hfield, value, happly, hlookup⟩ :=
      exists_check_of_validateMembers hrecord hname
    -- The check is that of the field, which is the only one of its name.
    obtain ⟨g, hg, hcheck⟩ := List.exists_of_mem_mapM hchecks hc
    obtain ⟨hgname, hoptional, -, -⟩ := Field.check_keeps hcheck
    obtain rfl := honce g hg (hgname.symm.trans hfield)
    refine ⟨value, hlookup, ?_⟩
    rcases Check.apply_eq_ok happly with ⟨rfl, hnull⟩ | ⟨j, hj, hguards, rfl⟩
    · rw [hoptional] at hnull
      refine ⟨fun _ => ⟨hnull, fun d hrequired => ?_⟩, fun hne => absurd rfl hne⟩
      rw [show (Statements.ofSchema d s).createTable = Statements.creation d s from rfl,
        Sql.requiredColumns_creation] at hrequired
      obtain ⟨g', hg', hsame⟩ := List.mem_map.mp hrequired
      obtain ⟨hmem, hneeded⟩ := List.mem_filter.mp hg'
      obtain rfl := honce g' (List.mem_filter.mp hmem).1 hsame
      simp [hnull] at hneeded
    · obtain ⟨hne, hfits⟩ := Field.store_fits t hcheck hj hguards
      exact ⟨fun heq => absurd heq hne, fun _ => hfits⟩

/-- A listed value, a truth value given as a text, a reference, and an optional
field left out. -/
theorem record_fits_declarations_item :
    let role : Field := ⟨"role", "Enum", false, [("enum", .list ["a\"", "b"])]⟩
    let note : Field := ⟨"note", "Text", true, []⟩
    let s : Schema := ⟨"Item", [role, ⟨"done", "Bool", false, []⟩, note,
      ⟨"owner", "Item", false, []⟩], 1⟩
    let record : Json.Members := [("done", .bool false), ("note", .null), ("owner", .array []),
      ("role", .text "a\"")]
    ∃ checks, s.checks = .ok checks ∧
      validate checks (.object [("owner", .array []), ("done", .text ""), ("role", .text "a\""),
        ("x", .null)]) = .ok record ∧
      (∀ key, key ∈ record.map Prod.fst ↔ key ∈ s.fields.map Field.name) ∧
      (∀ d, "note" ∉ Sql.requiredColumns (Statements.ofSchema d s).createTable) ∧
      (ValueType.read (Server.fieldType { schemas := [s] } role)).Admits (.text "a\"") := by
  intro role note s record
  let checks : List Check := [⟨"role", false, .text, none, none, some ["a\"", "b"], none, none⟩,
    ⟨"done", false, .boolean, none, none, none, none, none⟩,
    ⟨"note", true, .text, none, none, none, none, none⟩,
    ⟨"owner", false, .passthrough, none, none, none, none, none⟩]
  have hchecks : s.checks = .ok checks := by decide +kernel
  have hrecord : validate checks (.object [("owner", .array []), ("done", .text ""),
      ("role", .text "a\""), ("x", .null)]) = .ok record := rfl
  obtain ⟨-, hkeys, hfits⟩ := record_fits_declarations hchecks hrecord { schemas := [s] }
  refine ⟨checks, hchecks, hrecord, hkeys, ?_, ?_⟩
  · obtain ⟨value, hvalue, hnull, -⟩ := hfits note (by decide) (by decide)
    exact (hnull (Option.some.inj hvalue).symm).2
  · obtain ⟨value, hvalue, -, htype⟩ := hfits role (by decide) (by decide)
    obtain rfl : .text "a\"" = value := Option.some.inj hvalue
    rcases htype (by simp) with hrefers | hadmits
    · cases hrefers.plain
    · exact hadmits

end BlockLang
